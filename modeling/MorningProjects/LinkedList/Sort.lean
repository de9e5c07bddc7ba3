import MorningProjects.Library.Comparator
import MorningProjects.LinkedList.WellFormed

/-!
# `list_sort`

The nodes leave the list one after the other and enter a second one in front of
the first node they precede, so the second list is always the stable sort of
the nodes moved so far.
-/
namespace MorningProjects.LinkedList
open Library

def dataAt (h : NodeHeap) (a : ℕ) : ℤ := ((h a).map LinkNode.data).getD 0

def nodeOrder (isAscending : Bool) (h : NodeHeap) (a b : ℕ) : ℤ :=
  if isAscending then dataAt h a - dataAt h b else dataAt h b - dataAt h a

theorem nodeOrder_preorder (isAscending : Bool) (h : NodeHeap) :
    TotalPreorder (nodeOrder isAscending h) := by
  constructor
  · intro a
    cases isAscending <;> simp [nodeOrder]
  · intro a b
    cases isAscending <;> simp only [nodeOrder] <;> simp
  · intro a b c
    cases isAscending <;> simp only [nodeOrder] <;> simp <;> omega

structure Sorting.Split (h₀ : NodeHeap) (t : Sorting) (ts rs : List ℕ) : Prop where
  nodup : (ts ++ rs).Nodup
  moved : Segment t.heap none ts none
  left : NextChain t.heap rs none
  head : t.tempHead = ts.head?
  tail : t.tempTail = ts.getLast?
  data : ∀ b, (t.heap b).map LinkNode.data = (h₀ b).map LinkNode.data

variable {h₀ : NodeHeap} {t t' : Sorting} {as bs ts rs : List ℕ} {a : ℕ} {fuel : ℕ}
  {isAscending : Bool}

theorem Sorting.Split.enter (as bs : List ℕ) (h : t.Split h₀ (as ++ bs) (a :: rs))
    (hnode : ∃ d, t'.heap a = some ⟨as.getLast?, bs.head?, d⟩)
    (hlast : NextLast t.heap t'.heap as (some a)) (hfirst : PrevFirst t.heap t'.heap bs (some a))
    (hother : ∀ b, b ≠ a → as.getLast? ≠ some b → bs.head? ≠ some b → t'.heap b = t.heap b)
    (hdata : ∀ b, (t'.heap b).map LinkNode.data = (t.heap b).map LinkNode.data)
    (hhead : t'.tempHead = if as = [] then some a else t.tempHead)
    (htail : t'.tempTail = if bs = [] then some a else t.tempTail) :
    t'.Split h₀ (as ++ a :: bs) rs := by
  obtain ⟨hmoved, hrest, hdisjoint⟩ := List.nodup_append.mp h.nodup
  constructor
  · have hperm : (as ++ a :: bs ++ rs).Perm (as ++ bs ++ a :: rs) := by
      simp only [List.append_assoc, List.cons_append]
      exact List.Perm.append_left as List.perm_middle.symm
    exact hperm.nodup_iff.mpr h.nodup
  · apply h.moved.link hmoved _ hlast hfirst
    simpa using hnode
  · apply h.left.2.congr
    intro b hb
    apply hother
    · rintro rfl
      exact (List.nodup_cons.mp hrest).1 hb
    · intro heq
      have := List.mem_of_getLast? heq
      exact hdisjoint b (by simp [this]) b (by simp [hb]) rfl
    · intro heq
      have := List.mem_of_head? heq
      exact hdisjoint b (by simp [this]) b (by simp [hb]) rfl
  · rw [hhead, h.head]
    cases as <;> simp
  · rw [htail, h.tail]
    cases bs <;> simp [List.getLast?_append, List.getLast?_cons]
  · intro b
    rw [hdata, h.data]

theorem Sorting.Split.dataAt_eq (h : t.Split h₀ ts rs) (b : ℕ) : dataAt t.heap b = dataAt h₀ b := by
  rw [dataAt, dataAt, h.data]

/-- The inner loop stops at the first moved node that `a` precedes. -/
theorem Sorting.Split.firstFrom_eq (isAscending : Bool) (h : t.Split h₀ ts (a :: rs))
    (hfuel : ts.length ≤ fuel) :
    firstFrom t.heap (sortCondition isAscending (dataAt h₀ a)) fuel t.tempHead =
      some (ts.find? fun b => nodeOrder isAscending h₀ a b < 0) := by
  rw [h.head, LinkedList.firstFrom_eq h.moved.nextChain _ hfuel]
  congr 1
  apply List.find?_congr
  intro b hb
  obtain ⟨n, hn⟩ := Option.isSome_iff_exists.mp (h.moved.nextChain.isSome hb)
  have hdata : dataAt h₀ b = n.data := by rw [← h.dataAt_eq, dataAt, hn]; rfl
  rw [hn, Option.any_some, nodeOrder, hdata]
  cases isAscending <;> simp [sortCondition]

theorem Sorting.Split.move_first (h : t.Split h₀ [] (a :: rs)) :
    ∃ t', sortMove fuel isAscending t (some a) = some t' ∧ t'.Split h₀ [a] rs := by
  obtain ⟨⟨p, d, hd⟩, -⟩ := h.left
  have hnone : t.tempHead = none := h.head
  refine ⟨⟨setNext (setPrev t.heap (some a) none) (some a) none, some a, some a⟩, ?_, ?_⟩
  · rw [sortMove, if_pos hnone, writePrev_eq (by simp [hd])]
    simp [writeNext_eq, hd]
  · apply Sorting.Split.enter [] [] h
    · exact ⟨d, by simp [setNext, setPrev, hd]⟩
    · intro b hb
      cases hb
    · intro b hb
      cases hb
    · intro b hb _ _
      simp [setNext, setPrev, Ne.symm hb]
    · intro b
      simp
    · rfl
    · rfl

theorem Sorting.Split.readData_eq (h : t.Split h₀ ts (a :: rs)) :
    readData t.heap (some a) = some (dataAt h₀ a) := by
  obtain ⟨⟨p, d, hd⟩, -⟩ := h.left
  rw [Library.readData_eq hd, ← h.dataAt_eq, dataAt, hd]
  rfl

theorem Sorting.Split.ne (h : t.Split h₀ ts (a :: rs)) {b : ℕ} (hb : b ∈ ts) : b ≠ a := by
  rintro rfl
  exact (List.nodup_append.mp h.nodup).2.2 b hb b (by simp) rfl

theorem Sorting.Split.tempHead_ne (h : t.Split h₀ ts rs) {b : ℕ} (hb : b ∈ ts) :
    t.tempHead ≠ none := by
  rw [h.head]
  cases ts with
  | nil => cases hb
  | cons c ts => simp

/-- A node that precedes none of those moved goes to the end. -/
theorem Sorting.Split.move_last {l : ℕ} (h : t.Split h₀ ts (a :: rs)) (hfuel : ts.length ≤ fuel)
    (hl : ts.getLast? = some l)
    (hfind : (ts.find? fun b => nodeOrder isAscending h₀ a b < 0) = none) :
    ∃ t', sortMove fuel isAscending t (some a) = some t' ∧ t'.Split h₀ (ts ++ [a]) rs := by
  obtain ⟨⟨p, d, hd⟩, -⟩ := h.left
  have hmem := List.mem_of_getLast? hl
  have hla := h.ne hmem
  have hlive : (t.heap l).isSome := h.moved.nextChain.isSome hmem
  have hfirst := h.firstFrom_eq isAscending hfuel
  rw [hfind] at hfirst
  refine ⟨⟨setNext (setNext (setPrev t.heap (some a) (some l)) (some a) none) (some l) (some a),
    t.tempHead, some a⟩, ?_, ?_⟩
  · rw [sortMove, if_neg (h.tempHead_ne hmem), h.readData_eq, h.tail, hl]
    simp [hfirst, writePrev_eq, writeNext_eq, hd, hlive]
  · apply Sorting.Split.enter ts [] (by simpa using h)
    · exact ⟨d, by simp [setNext, setPrev, hla, hd, hl]⟩
    · intro b hb
      have hba := h.ne hb
      simp [setNext, setPrev, Ne.symm hba, hl]
    · intro b hb
      cases hb
    · intro b hb hlast _
      have hbl : l ≠ b := fun heq => hlast (by rw [hl, heq])
      simp [setNext, setPrev, Ne.symm hb, hbl]
    · intro b
      simp
    · have hts : ts ≠ [] := List.ne_nil_of_mem hmem
      simp [hts]
    · rfl

theorem Sorting.Split.setNext_sorted {c : ℕ} (h : t.Split h₀ (as ++ c :: bs) (a :: rs))
    (v : Option ℕ) :
    ∃ e, t.heap c = some ⟨as.getLast?, bs.head?, e⟩ ∧
      setNext t.heap (some a) v c = some ⟨as.getLast?, bs.head?, e⟩ := by
  obtain ⟨e, he⟩ := h.moved.node
  rw [Option.or_none, Option.or_none] at he
  have hca : c ≠ a := h.ne (by simp)
  refine ⟨e, he, ?_⟩
  rw [setNext_of_ne (by simpa using Ne.symm hca), he]

theorem Sorting.Split.move_front {c : ℕ} (h : t.Split h₀ (c :: bs) (a :: rs))
    (hfuel : (c :: bs).length ≤ fuel)
    (hfind : ((c :: bs).find? fun b => nodeOrder isAscending h₀ a b < 0) = some c) :
    ∃ t', sortMove fuel isAscending t (some a) = some t' ∧ t'.Split h₀ (a :: c :: bs) rs := by
  obtain ⟨⟨p, d, hd⟩, -⟩ := h.left
  have hsplit : t.Split h₀ ([] ++ c :: bs) (a :: rs) := h
  obtain ⟨e, he, hcurrent⟩ := hsplit.setNext_sorted (some c)
  have hca : c ≠ a := h.ne (by simp)
  have hhead : t.tempHead = some c := h.head
  have hfirst := h.firstFrom_eq isAscending hfuel
  rw [hfind, hhead] at hfirst
  refine ⟨⟨setPrev (setPrev (setNext t.heap (some a) (some c)) (some a) none) (some c) (some a),
    some a, t.tempTail⟩, ?_, ?_⟩
  · rw [sortMove, if_neg (h.tempHead_ne (List.mem_cons_self)), h.readData_eq, hhead]
    simp [hfirst, writeNext_eq, hd, readPrev_eq hcurrent, writePrev_eq, he]
  · apply Sorting.Split.enter [] (c :: bs) h
    · exact ⟨d, by simp [setNext, setPrev, hca, hd]⟩
    · intro b hb
      cases hb
    · intro b hb
      have hba := h.ne hb
      simp [setNext, setPrev, Ne.symm hba]
    · intro b hb _ hbc
      have hbc : c ≠ b := fun heq => hbc (by rw [heq]; rfl)
      simp [setNext, setPrev, Ne.symm hb, hbc]
    · intro b
      simp
    · rfl
    · rfl

/-- Any other node goes in between two sorted ones, in front of the first one it precedes. -/
theorem Sorting.Split.move_between {c l : ℕ} (h : t.Split h₀ (as ++ c :: bs) (a :: rs))
    (hlast : as.getLast? = some l) (hfuel : (as ++ c :: bs).length ≤ fuel)
    (hfind : ((as ++ c :: bs).find? fun b => nodeOrder isAscending h₀ a b < 0) = some c) :
    ∃ t', sortMove fuel isAscending t (some a) = some t' ∧
      t'.Split h₀ (as ++ a :: c :: bs) rs := by
  obtain ⟨⟨p, d, hd⟩, -⟩ := h.left
  obtain ⟨e, he, hcurrent⟩ := h.setNext_sorted (some c)
  have hca : c ≠ a := h.ne (by simp)
  have hfirst := h.firstFrom_eq isAscending hfuel
  rw [hfind] at hfirst
  have hmoved := (List.nodup_append.mp h.nodup).1
  have hl := List.mem_of_getLast? hlast
  have hla : l ≠ a := h.ne (by simp [hl])
  have hlc : l ≠ c := fun heq => (List.nodup_append.mp hmoved).2.2 l hl c (by simp) heq
  have hlive : (t.heap l).isSome := h.moved.nextChain.isSome (by simp [hl])
  have hhead : t.tempHead ≠ some c := by
    rw [h.head]
    cases as with
    | nil => cases hl
    | cons x as =>
      intro heq
      obtain rfl := Option.some.inj heq
      exact (List.nodup_append.mp hmoved).2.2 x (by simp) x (by simp) rfl
  have hcurrent' : setPrev (setNext t.heap (some a) (some c)) (some a) (some l) c =
      some ⟨as.getLast?, bs.head?, e⟩ := by
    rw [setPrev_of_ne (by simpa using Ne.symm hca), hcurrent]
  refine ⟨⟨setPrev (setNext (setPrev (setNext t.heap (some a) (some c)) (some a) (some l))
    (some l) (some a)) (some c) (some a), t.tempHead, t.tempTail⟩, ?_, ?_⟩
  · rw [sortMove, if_neg (h.tempHead_ne (b := c) (by simp)), h.readData_eq]
    simp [hfirst, writeNext_eq, hd, readPrev_eq hcurrent, hlast, writePrev_eq, Ne.symm hhead,
      readPrev_eq hcurrent', hlive, he]
  · apply Sorting.Split.enter as (c :: bs) h
    · exact ⟨d, by simp [setNext, setPrev, hca, hla, hd, hlast]⟩
    · intro b hb
      have hba := h.ne (b := b) (by simp [hb])
      have hbc : c ≠ b := fun heq => (List.nodup_append.mp hmoved).2.2 b hb c (by simp) heq.symm
      simp [setNext, setPrev, Ne.symm hba, hbc, hlast]
    · intro b hb
      have hba := h.ne (b := b) (by simp [hb])
      have hbl : l ≠ b := fun heq => (List.nodup_append.mp hmoved).2.2 l hl b hb heq
      simp [setNext, setPrev, Ne.symm hba, hbl]
    · intro b hb hbl hbc
      have hbl : l ≠ b := fun heq => hbl (by rw [hlast, heq])
      have hbc : c ≠ b := fun heq => hbc (by rw [heq]; rfl)
      simp [setNext, setPrev, Ne.symm hb, hbl, hbc]
    · intro b
      simp
    · have has : as ≠ [] := List.ne_nil_of_mem hl
      simp [has]
    · rfl

/-- One round of the outer loop inserts the next node into the sorted ones. -/
theorem Sorting.Split.move (isAscending : Bool) (h : t.Split h₀ ts (a :: rs))
    (hfuel : ts.length ≤ fuel) :
    ∃ t', sortMove fuel isAscending t (some a) = some t' ∧
      t'.Split h₀ (insertAfter (nodeOrder isAscending h₀) a ts) rs := by
  cases hfind : ts.find? fun b => nodeOrder isAscending h₀ a b < 0 with
  | none =>
    have hnone : ∀ b ∈ ts, ¬ nodeOrder isAscending h₀ a b < 0 := by
      intro b hb
      simpa using List.find?_eq_none.mp hfind b hb
    rw [insertAfter_eq_concat hnone]
    cases hl : ts.getLast? with
    | none =>
      obtain rfl := List.getLast?_eq_none_iff.mp hl
      exact h.move_first
    | some l => exact h.move_last hfuel hl hfind
  | some c =>
    obtain ⟨hc, as, bs, rfl, hbefore⟩ := List.find?_eq_some_iff_append.mp hfind
    rw [insertAfter_append_cons (fun b hb => by simpa using hbefore b hb) (by simpa using hc)]
    cases hlast : as.getLast? with
    | none =>
      obtain rfl := List.getLast?_eq_none_iff.mp hlast
      exact h.move_front hfuel hfind
    | some l => exact h.move_between hlast hfuel hfind

/-- The outer loop ends and has sorted the remaining nodes into those moved. -/
theorem sortLoop_eq (isAscending : Bool) {n : ℕ} (h : t.Split h₀ ts (a :: rs)) (hn : rs.length < n)
    (hfuel : (ts ++ a :: rs).length ≤ fuel) :
    ∃ t', sortLoop fuel isAscending n t (some a) = some t' ∧
      t'.Split h₀ ((a :: rs).foldl
        (fun sorted x => insertAfter (nodeOrder isAscending h₀) x sorted) ts) [] := by
  induction rs generalizing t ts a n with
  | nil =>
    obtain ⟨n, rfl⟩ := Nat.exists_eq_add_of_lt hn
    obtain ⟨⟨p, d, hd⟩, -⟩ := h.left
    obtain ⟨t', ht', hsplit⟩ := h.move isAscending (by
      simp at hfuel
      omega : ts.length ≤ fuel)
    exact ⟨t', by simp [sortLoop, readNext_eq hd, ht'], hsplit⟩
  | cons b rs ih =>
    obtain ⟨n, rfl⟩ := Nat.exists_eq_add_of_lt hn
    obtain ⟨⟨p, d, hd⟩, -⟩ := h.left
    obtain ⟨t₁, ht₁, hsplit₁⟩ := h.move isAscending (by
      simp at hfuel
      omega : ts.length ≤ fuel)
    have hlength : (insertAfter (nodeOrder isAscending h₀) a ts).length = (a :: ts).length :=
      (insertAfter_perm a ts).length_eq
    obtain ⟨t', ht', hsplit⟩ := ih hsplit₁ (n := (b :: rs).length + n) (by simp; omega) (by
      simp at hfuel hlength ⊢
      omega)
    refine ⟨t', ?_, hsplit⟩
    simp [sortLoop, readNext_eq hd, ht₁]
    exact ht'

/-- Sorting a list ends, keeps its nodes, their data and the cursor, and orders the
nodes by the stable sort. -/
theorem Linkit.Links.listSort {s : Linkit} (h : s.Links as) (hfuel : as.length ≤ fuel)
    (isAscending : Bool) :
    ∃ s', LinkedList.listSort fuel s isAscending = some (.success, s') ∧
      s'.Links (stableSort (nodeOrder isAscending s.heap) as) ∧
      (∀ b, (s'.heap b).map LinkNode.data = (s.heap b).map LinkNode.data) ∧
      s'.currentElem = s.currentElem := by
  cases as with
  | nil =>
    have hnum := h.numNodes_eq_zero.mpr rfl
    exact ⟨s, by rw [LinkedList.listSort, if_pos hnum], h, fun b => rfl, rfl⟩
  | cons a as =>
    have hnum : s.numNodes ≠ 0 := by
      intro h0
      cases h.numNodes_eq_zero.mp h0
    have hsplit : Sorting.Split s.heap ⟨s.heap, none, none⟩ [] (a :: as) := by
      constructor
      · exact h.nodup
      · trivial
      · exact h.segment.nextChain
      · rfl
      · rfl
      · intro b
        rfl
    obtain ⟨t, ht, hsorted⟩ := sortLoop_eq isAscending hsplit
      (by simpa using hfuel) hfuel
    rw [foldl_insertAfter (nodeOrder_preorder isAscending s.heap)] at hsorted
    have hperm : (stableSort (nodeOrder isAscending s.heap) (a :: as)).Perm (a :: as) :=
      List.perm_insertionSort _ _
    refine ⟨⟨t.heap, s.numNodes, t.tempHead, t.tempTail, s.currentElem⟩, ?_, ?_, hsorted.data, rfl⟩
    · rw [LinkedList.listSort, if_neg hnum, h.head, List.head?_cons, ht]
      rfl
    · constructor
      · exact hperm.nodup_iff.mpr h.nodup
      · exact hsorted.moved
      · exact hsorted.head
      · exact hsorted.tail
      · rw [hperm.length_eq]
        exact h.counted

theorem Linkit.ListOf.listSort {s : Linkit} (h : s.ListOf as) (hfuel : as.length ≤ fuel)
    (isAscending : Bool) :
    ∃ s', LinkedList.listSort fuel s isAscending = some (.success, s') ∧
      s'.ListOf (stableSort (nodeOrder isAscending s.heap) as) := by
  obtain ⟨s', hs', hlinks, hdata, hcursor⟩ := h.links.listSort hfuel isAscending
  obtain ⟨hnodup, hsegment, hhead, htail, hcounted⟩ := hlinks
  have hperm : (stableSort (nodeOrder isAscending s.heap) as).Perm as :=
    List.perm_insertionSort _ _
  refine ⟨s', hs', hnodup, hsegment, ?_, hhead, htail, hcounted, ?_⟩
  · intro b hb
    rw [hperm.mem_iff]
    apply h.live b
    rw [← Option.isSome_map (f := LinkNode.data), ← hdata, Option.isSome_map]
    exact hb
  · intro b hb
    rw [hperm.mem_iff]
    exact h.cursor b (hcursor ▸ hb)

/-- Any well-formed list, whatever else the heap holds and wherever the cursor is, is sorted in
place: the same nodes with their data, in order, those of equal data as they stood before. -/
theorem listSort_sorts {s : Linkit} (h : s.Links as) (hfuel : as.length ≤ fuel)
    (isAscending : Bool) :
    ∃ s' bs, listSort fuel s isAscending = some (.success, s') ∧ s'.Links bs ∧ bs.Perm as ∧
      (∀ b, (s'.heap b).map LinkNode.data = (s.heap b).map LinkNode.data) ∧
      bs.Pairwise (fun x y => if isAscending then dataAt s'.heap x ≤ dataAt s'.heap y
        else dataAt s'.heap y ≤ dataAt s'.heap x) ∧
      (∀ d, bs.filter (fun b => dataAt s'.heap b = d) =
        as.filter fun a => dataAt s.heap a = d) ∧
      s'.numNodes = s.numNodes ∧ s'.currentElem = s.currentElem := by
  obtain ⟨s', hs', hlinks, hdata, hcursor⟩ := h.listSort hfuel isAscending
  have hpre := nodeOrder_preorder isAscending s.heap
  have hperm : (stableSort (nodeOrder isAscending s.heap) as).Perm as :=
    List.perm_insertionSort _ _
  have hkeep : ∀ b, dataAt s'.heap b = dataAt s.heap b := by
    intro b
    rw [dataAt, dataAt, hdata]
  refine ⟨s', _, hs', hlinks, hperm, hdata, ?_, ?_, ?_, hcursor⟩
  · apply (stableSort_ordered hpre as).imp
    intro x y hxy
    rw [hkeep, hkeep]
    cases isAscending
    · rw [nodeOrder, if_neg (by simp)] at hxy
      rw [if_neg (by simp)]
      omega
    · rw [nodeOrder, if_pos rfl] at hxy
      rw [if_pos rfl]
      omega
  · intro d
    simp only [hkeep]
    apply filter_stableSort hpre
    intro a b ha hb
    have ha : dataAt s.heap a = d := by simpa using ha
    have hb : dataAt s.heap b = d := by simpa using hb
    cases isAscending <;> simp [nodeOrder, ha, hb]
  · rw [hlinks.counted, h.counted, hperm.length_eq]

theorem listSort_sorts_example :
    ∃ s' bs, listSort 3 threeNodes true = some (.success, s') ∧ s'.Links bs ∧
      bs.filter (fun b => dataAt s'.heap b = 2) = [10, 12] ∧ s'.currentElem = some 11 := by
  obtain ⟨s', bs, hs', hlinks, -, -, -, hstable, -, hcursor⟩ :=
    listSort_sorts threeNodes_links (le_refl 3) true
  exact ⟨s', bs, hs', hlinks, hstable 2, hcursor⟩

end MorningProjects.LinkedList
