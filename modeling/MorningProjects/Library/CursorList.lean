import MorningProjects.Library.Comparator

/-!
# Lists with a cursor

The cursor is the place of an element, or nowhere. Elements that come and go
around it leave it on its element; when that element goes, the next one gets the
cursor, and the last one leaves it nowhere. Sorting takes it along.
-/
namespace MorningProjects.Library

@[ext]
structure CursorList (α : Type*) where
  items : List α
  place : Option ℕ
  valid : ∀ i, place = some i → i < items.length

namespace CursorList

variable {α β : Type*} (l : CursorList α)

def empty : CursorList α where
  items := []
  place := none
  valid := by simp

def single (a : α) : CursorList α where
  items := [a]
  place := some 0
  valid := by simp

def current : Option α := l.place.bind fun i => l.items[i]?

def setPlace (place : Option ℕ) : CursorList α where
  items := l.items
  place := place.filter (· < l.items.length)
  valid i hi := by simpa using (Option.filter_eq_some_iff.mp hi).2

def next : Option ℕ := (l.place.map (· + 1)).filter (· < l.items.length)

def prev : Option ℕ := l.place.bind fun i => if i = 0 then none else some (i - 1)

def insertAt (i : ℕ) (a : α) : CursorList α where
  items := l.items.insertIdx i a
  place := l.place.map fun c => if c < i then c else c + 1
  valid c hc := by
    obtain ⟨c', hc', rfl⟩ := Option.map_eq_some_iff.mp hc
    have hlt := l.valid c' hc'
    rw [List.length_insertIdx]
    split_ifs <;> omega

def removeAt (i : ℕ) : CursorList α where
  items := l.items.eraseIdx i
  place := l.place.bind fun c =>
    if c < i then some c
    else if c = i then if i + 1 < l.items.length then some i else none
    else some (c - 1)
  valid c hc := by
    obtain ⟨c', hc', hc⟩ := Option.bind_eq_some_iff.mp hc
    have hlt := l.valid c' hc'
    rw [List.length_eraseIdx]
    split_ifs at hc ⊢ <;> cases hc <;> omega

/-- The stable sort. In front of the element under the cursor come those that were in front of
it and are not above it, and those that were behind it and are below it. -/
def sort (compare : α → α → ℤ) : CursorList α where
  items := stableSort compare l.items
  place := l.place.bind fun i => l.items[i]?.map fun a =>
    (l.items.take i).countP (fun x => compare x a ≤ 0) +
      (l.items.drop (i + 1)).countP (fun x => compare x a < 0)
  valid c hc := by
    obtain ⟨i, hi, hc⟩ := Option.bind_eq_some_iff.mp hc
    obtain ⟨a, -, rfl⟩ := Option.map_eq_some_iff.mp hc
    have hlt := l.valid i hi
    have hfront := List.countP_le_length (p := fun x => compare x a ≤ 0) (l := l.items.take i)
    have hback := List.countP_le_length (p := fun x => compare x a < 0) (l := l.items.drop (i + 1))
    rw [List.length_take] at hfront
    rw [List.length_drop] at hback
    rw [stableSort, List.length_insertionSort]
    omega

def map (f : α → β) : CursorList β where
  items := l.items.map f
  place := l.place
  valid i hi := by simpa using l.valid i hi

variable {l} {f g : α → β} {a : α} {xs ys : List α}

theorem exists_split {i : ℕ} (h : i < l.items.length) :
    ∃ xs a ys, l.items = xs ++ a :: ys ∧ xs.length = i := by
  refine ⟨l.items.take i, l.items[i], l.items.drop (i + 1), ?_, ?_⟩
  · rw [← List.drop_eq_getElem_cons h, List.take_append_drop]
  · simp [h.le]

theorem current_of_place (hitems : l.items = xs ++ a :: ys) (h : l.place = some xs.length) :
    l.current = some a := by
  simp [current, h, hitems]

theorem current_eq_none : l.current = none ↔ l.place = none := by
  cases h : l.place with
  | none => simp [current, h]
  | some i =>
    obtain ⟨xs, a, ys, hitems, rfl⟩ := exists_split (l.valid i h)
    simp [current_of_place hitems h]

theorem mem_of_current (h : l.current = some a) : a ∈ l.items := by
  obtain ⟨i, -, ha⟩ := Option.bind_eq_some_iff.mp h
  exact List.mem_of_getElem? ha

/-- In a list without repetition the element under the cursor tells its place. -/
theorem place_of_current (hnodup : l.items.Nodup) (hitems : l.items = xs ++ a :: ys)
    (h : l.current = some a) : l.place = some xs.length := by
  obtain ⟨i, hi, ha⟩ := Option.bind_eq_some_iff.mp h
  have hx : l.items[xs.length]? = some a := by simp [hitems]
  rw [hi, (List.getElem?_inj (l.valid i hi) hnodup).mp (ha.trans hx.symm)]

theorem current_eq_getElem? (hnodup : l.items.Nodup) {i : ℕ} (hi : i < l.items.length) :
    l.current = l.items[i]? ↔ l.place = some i := by
  constructor
  · intro h
    obtain ⟨c, hc, ha⟩ := Option.bind_eq_some_iff.mp (h.trans (List.getElem?_eq_getElem hi))
    rw [hc, (List.getElem?_inj hi hnodup).mp ((List.getElem?_eq_getElem hi).trans ha.symm)]
  · intro h
    simp [current, h]

theorem items_insertAt (h : l.items = xs ++ ys) (a : α) :
    (l.insertAt xs.length a).items = xs ++ a :: ys := by
  change l.items.insertIdx xs.length a = _
  rw [h]
  clear h
  induction xs with
  | nil => rfl
  | cons x xs ih => exact congrArg (x :: ·) ih

theorem items_removeAt (h : l.items = xs ++ a :: ys) :
    (l.removeAt xs.length).items = xs ++ ys := by
  simp [removeAt, h, List.eraseIdx_append]

/-! ### The neighbours of the cursor -/

theorem next_eq (hitems : l.items = xs ++ a :: ys) (h : l.place = some xs.length) :
    l.next = if ys = [] then none else some (xs.length + 1) := by
  have hlt : xs.length + 1 < l.items.length ↔ ys ≠ [] := by
    rw [hitems, List.length_append, List.length_cons, ← List.length_pos_iff]
    omega
  by_cases hys : ys = []
  · simp [next, h, hlt, hys, Option.filter_some]
  · simp [next, h, hlt, hys, Option.filter_some]

theorem prev_eq (h : l.place = some xs.length) :
    l.prev = if xs = [] then none else some (xs.length - 1) := by
  simp [prev, h]

/-! ### The current element after each operation -/

theorem current_setPlace (place : Option ℕ) :
    (l.setPlace place).current = place.bind fun i => l.items[i]? := by
  cases place with
  | none => rfl
  | some i =>
    by_cases hi : i < l.items.length
    · simp [current, setPlace, Option.filter_some, hi]
    · simp [current, setPlace, Option.filter_some, hi]

theorem current_insertAt (i : ℕ) (a : α) :
    (l.insertAt i a).current = l.current := by
  cases h : l.place with
  | none => simp [current, insertAt, h]
  | some c =>
    simp only [current, insertAt, h, Option.map_some, Option.bind_some]
    split_ifs with hci
    · rw [List.getElem?_insertIdx_of_lt hci]
    · rw [List.getElem?_insertIdx_of_gt (by omega), Nat.add_sub_cancel]

theorem current_removeAt [DecidableEq α] (hnodup : l.items.Nodup)
    (hitems : l.items = xs ++ a :: ys) :
    (l.removeAt xs.length).current = if l.current = some a then ys.head? else l.current := by
  have hlength : l.items.length = xs.length + ys.length + 1 := by simp [hitems]; omega
  cases h : l.place with
  | none =>
    have hnone := current_eq_none.mpr h
    simp [hnone, current_eq_none, removeAt, h]
  | some c =>
    have hc := l.valid c h
    by_cases hcx : c = xs.length
    · subst hcx
      rw [if_pos (current_of_place hitems h)]
      cases ys with
      | nil => simp [current, removeAt, h, hlength]
      | cons y ys => simp [current, removeAt, h, hitems, List.eraseIdx_append]
    · have hne : l.current ≠ some a := by
        intro heq
        rw [place_of_current hnodup hitems heq] at h
        exact hcx (Option.some.inj h).symm
      rw [if_neg hne]
      simp only [current, removeAt, h, Option.bind_some]
      by_cases hlt : c < xs.length
      · rw [if_pos hlt, Option.bind_some, List.getElem?_eraseIdx_of_lt hlt]
      · rw [if_neg hlt, if_neg hcx, Option.bind_some, List.getElem?_eraseIdx_of_ge (by omega),
          Nat.sub_add_cancel (by omega)]

end CursorList

section StablePlace

variable {α : Type*} {compare : α → α → ℤ} (hc : TotalPreorder compare)
include hc

/-- Insertion into an ordered list parts it at the new element. -/
theorem insertAfter_eq_filter (x : α) {l : List α} (hl : Ordered compare l) :
    insertAfter compare x l =
      l.filter (fun b => compare b x ≤ 0) ++ x :: l.filter (fun b => 0 < compare b x) := by
  induction l with
  | nil => rfl
  | cons a l ih =>
    obtain ⟨ha, hl⟩ := List.pairwise_cons.mp hl
    by_cases hxa : compare x a < 0
    · have hall : ∀ b ∈ a :: l, compare x b < 0 := by
        intro b hb
        rcases List.mem_cons.mp hb with rfl | hb
        · exact hxa
        · exact hc.lt_of_lt_of_le hxa (ha b hb)
      have hnone : (a :: l).filter (fun b => compare b x ≤ 0) = [] := by
        apply List.filter_eq_nil_iff.mpr
        intro b hb
        have := (hc.flip x b).mp (hall b hb)
        simpa using this
      have hself : (a :: l).filter (fun b => 0 < compare b x) = a :: l := by
        apply List.filter_eq_self.mpr
        intro b hb
        simpa using (hc.flip x b).mp (hall b hb)
      rw [insertAfter_eq_cons hall, hnone, hself]
      rfl
    · have hax := hc.le_of_not_lt hxa
      rw [insertAfter, if_neg hxa, ih hl, List.filter_cons_of_pos (by simpa using hax),
        List.filter_cons_of_neg (by simpa using hax)]
      rfl

theorem filter_stableSort_comm (p : α → Bool) (l : List α) :
    (stableSort compare l).filter p = stableSort compare (l.filter p) := by
  induction l using List.reverseRecOn with
  | nil => rfl
  | append_singleton l x ih =>
    rw [stableSort_concat hc, filter_insertAfter hc p x (stableSort_ordered hc l), ih,
      List.filter_append, List.filter_singleton]
    by_cases hx : p x
    · simp [hx, stableSort_concat hc]
    · simp [hx]

theorem stableSort_around (xs ys : List α) (a : α) :
    stableSort compare (xs ++ a :: ys) =
      stableSort compare (xs.filter (fun x => compare x a ≤ 0) ++
        ys.filter (fun y => compare y a < 0)) ++
      a :: stableSort compare (xs.filter (fun x => 0 < compare x a) ++
        ys.filter (fun y => 0 ≤ compare y a)) := by
  induction ys using List.reverseRecOn with
  | nil =>
    rw [stableSort_concat hc, insertAfter_eq_filter hc a (stableSort_ordered hc xs),
      filter_stableSort_comm hc, filter_stableSort_comm hc]
    simp
  | append_singleton ys y ih =>
    rw [← List.cons_append, ← List.append_assoc, stableSort_concat hc, ih, List.filter_append,
      List.filter_append, List.filter_singleton, List.filter_singleton]
    by_cases hy : compare y a < 0
    · rw [insertAfter_append_left hy, ← stableSort_concat hc]
      have hge : ¬ 0 ≤ compare y a := by omega
      simp [hy, hge]
    · have hleft : ∀ b ∈ stableSort compare (xs.filter (fun x => compare x a ≤ 0) ++
          ys.filter (fun y => compare y a < 0)), ¬ compare y b < 0 := by
        intro b hb
        have hba : compare b a ≤ 0 := by
          rw [mem_stableSort, List.mem_append, List.mem_filter, List.mem_filter] at hb
          rcases hb with hb | hb
          · simpa using hb.2
          · have := hb.2
            simp only [decide_eq_true_eq] at this
            omega
        exact hc.not_lt_of_le (hc.trans b a y hba (hc.le_of_not_lt hy))
      rw [insertAfter_append_right hy hleft, ← stableSort_concat hc]
      have hge : 0 ≤ compare y a := by omega
      simp [hy, hge]

theorem CursorList.current_sort (l : CursorList α) : (l.sort compare).current = l.current := by
  cases h : l.place with
  | none => simp [current, sort, h]
  | some i =>
    obtain ⟨xs, a, ys, hitems, rfl⟩ := exists_split (l.valid i h)
    rw [current_of_place hitems h]
    have hsorted := stableSort_around hc xs ys a
    rw [← hitems] at hsorted
    apply current_of_place hsorted
    simp [sort, h, hitems, stableSort, List.countP_eq_length_filter]

end StablePlace

namespace CursorList

variable {α β : Type*} {l : CursorList α} {f g : α → β}

/-! ### Images -/

theorem map_congr (h : ∀ a ∈ l.items, f a = g a) : l.map f = l.map g := by
  ext1
  · exact List.map_congr_left h
  · rfl

theorem map_single (f : α → β) (a : α) : (single a).map f = single (f a) := rfl

theorem current_map (f : α → β) : (l.map f).current = l.current.map f := by
  cases h : l.place with
  | none => simp [current, map, h]
  | some i => simp [current, map, h]

@[simp] theorem next_map (f : α → β) : (l.map f).next = l.next := by
  simp [next, map]

@[simp] theorem prev_map (f : α → β) : (l.map f).prev = l.prev := rfl

theorem map_setPlace (f : α → β) (place : Option ℕ) :
    (l.setPlace place).map f = (l.map f).setPlace place := by
  ext1
  · rfl
  · simp [setPlace, map]

theorem map_insertAt (f : α → β) (i : ℕ) (a : α) :
    (l.insertAt i a).map f = (l.map f).insertAt i (f a) := by
  ext1
  · exact List.map_insertIdx f l.items i a
  · rfl

theorem map_removeAt (f : α → β) (i : ℕ) : (l.removeAt i).map f = (l.map f).removeAt i := by
  ext1
  · exact (List.eraseIdx_map f l.items i).symm
  · simp [removeAt, map]

theorem map_sort (f : α → β) (compare : β → β → ℤ) :
    (l.sort fun a b => compare (f a) (f b)).map f = (l.map f).sort compare := by
  ext1
  · apply List.map_insertionSort
    simp
  · simp [sort, map, ← List.map_take, ← List.map_drop, List.countP_map, Function.comp_def]

end CursorList

end MorningProjects.Library
