import MorningProjects.LinkedList.Editor
import MorningProjects.LinkedList.Removal
import MorningProjects.LinkedList.Sort

/-!
# A list in memory as a text with a cursor

Linked nodes show the list of their data, with the cursor on the current
element. What the count says is left open, nodes that were lost may stay in the
heap, and so may the tail of a list that was destroyed.
-/
namespace MorningProjects.LinkedList
open Library

structure Linkit.Strung (s : Linkit) (as : List ℕ) : Prop where
  nodup : as.Nodup
  segment : Segment s.heap none as none
  head : s.head = as.head?
  tail : as ≠ [] ∨ s.numNodes ≠ 0 → s.tail = as.getLast?

/-- The nodes in order, and which of them is the current element. -/
structure Linkit.Shows (s : Linkit) (l : CursorList ℕ) : Prop where
  strung : s.Strung l.items
  current : s.currentElem = l.current

/-- At most `n` nodes show the text of an editor, and the two counts are the same. -/
def Linkit.Shown (n : ℕ) (s : Linkit) (e : Editor) : Prop :=
  ∃ l, s.Shows l ∧ l.items.length ≤ n ∧ l.map (dataAt s.heap) = e.text ∧ s.numNodes = e.count

variable {s s' : Linkit} {l l' : CursorList ℕ} {as xs ys : List ℕ} {a b n fuel : ℕ} {d : ℤ}
  {e : Editor}

theorem dataAt_eq {h : NodeHeap} {node : LinkNode ℕ ℤ} (ha : h a = some node) :
    dataAt h a = node.data := by
  simp [dataAt, ha]

theorem dataAt_congr {h h' : NodeHeap}
    (heq : (h' a).map LinkNode.data = (h a).map LinkNode.data) : dataAt h' a = dataAt h a := by
  rw [dataAt, dataAt, heq]

theorem shown_start : listInit.Shown 0 .start := by
  refine ⟨.empty, ⟨⟨List.nodup_nil, trivial, rfl, ?_⟩, rfl⟩, le_rfl, rfl, rfl⟩
  intro _
  rfl

def Linkit.recount (s : Linkit) (as : List ℕ) : Linkit := { s with numNodes := as.length }

theorem Linkit.Strung.links (h : s.Strung as) (hne : as ≠ []) : (s.recount as).Links as :=
  ⟨h.nodup, h.segment, h.head, h.tail (.inl hne), rfl⟩

theorem Linkit.Strung.isSome (h : s.Strung as) (ha : a ∈ as) : (s.heap a).isSome :=
  h.segment.nextChain.isSome ha

theorem Linkit.Strung.readData (h : s.Strung as) (ha : a ∈ as) :
    readData s.heap (some a) = some (dataAt s.heap a) := by
  obtain ⟨node, hnode⟩ := Option.isSome_iff_exists.mp (h.isSome ha)
  rw [readData_eq hnode, dataAt_eq hnode]

theorem Linkit.Strung.head_eq_none (h : s.Strung as) : s.head = none ↔ as = [] := by
  rw [h.head, List.head?_eq_none_iff]

theorem Linkit.Strung.node (h : s.Strung (xs ++ a :: ys)) :
    s.heap a = some ⟨xs.getLast?, ys.head?, dataAt s.heap a⟩ := by
  obtain ⟨d, hd⟩ := h.segment.node
  rw [dataAt_eq hd]
  simpa using hd

/-! ### Insertion -/

structure Linkit.Inserted (s s' : Linkit) (l : CursorList ℕ) (i a : ℕ) (d : ℤ) : Prop where
  shows : s'.Shows (l.insertAt i a)
  text : (l.insertAt i a).map (dataAt s'.heap) = (l.map (dataAt s.heap)).insertAt i d

theorem Linkit.Strung.not_mem (h : s.Strung as) (ha : s.heap a = none) : a ∉ as := by
  intro hmem
  have hsome := h.isSome hmem
  rw [ha] at hsome
  cases hsome

theorem Linkit.Shows.insert (h : s.Shows l) (hitems : l.items = xs ++ ys) (ha : s.heap a = none)
    (hnode : s'.heap a = some ⟨xs.getLast?, ys.head?, d⟩)
    (hlast : NextLast s.heap s'.heap xs (some a)) (hfirst : PrevFirst s.heap s'.heap ys (some a))
    (hhead : s'.head = if xs = [] then some a else s.head)
    (htail : s'.tail = if ys = [] then some a else s.tail)
    (hcurrent : s'.currentElem = s.currentElem) (hne : l.items ≠ []) :
    s.Inserted s' l xs.length a d := by
  have hstrung := h.strung
  rw [hitems] at hstrung
  have hfresh := hstrung.not_mem ha
  have hplace := CursorList.items_insertAt hitems a
  refine ⟨⟨?_, ?_⟩, ?_⟩
  · rw [hplace]
    constructor
    · rw [List.nodup_middle, List.nodup_cons]
      exact ⟨hfresh, hstrung.nodup⟩
    · apply hstrung.segment.link hstrung.nodup _ hlast hfirst
      simpa using ⟨d, hnode⟩
    · rw [hhead, hstrung.head]
      cases xs <;> simp
    · intro _
      rw [htail, hstrung.tail (.inl (hitems ▸ hne))]
      cases ys <;> simp [List.getLast?_append, List.getLast?_cons]
  · rw [hcurrent, h.current, CursorList.current_insertAt]
  · have hkeep : ∀ b ∈ l.items, dataAt s'.heap b = dataAt s.heap b := by
      intro b hb
      rw [hitems, List.mem_append] at hb
      apply dataAt_congr
      rcases hb with hb | hb
      · rw [hlast b hb]
        split_ifs <;> simp [Function.comp_def]
      · rw [hfirst b hb]
        split_ifs <;> simp [Function.comp_def]
    rw [CursorList.map_insertAt, dataAt_eq hnode, CursorList.map_congr hkeep]

theorem Linkit.Shows.insertHead (h : s.Shows l) (ha : s.heap a = none) (hne : l.items ≠ [])
    (hnum : s.numNodes ≠ 0) (d : ℤ) :
    ∃ s', LinkedList.insertHead s d (some a) = some (.success, s') ∧
      s'.numNodes = s.numNodes + 1 ∧ s.Inserted s' l 0 a d := by
  obtain ⟨b, bs, hitems⟩ := List.exists_cons_of_ne_nil hne
  have hstrung := h.strung
  rw [hitems] at hstrung
  have hfresh := hstrung.not_mem ha
  have hba : b ≠ a := fun heq => hfresh (heq ▸ List.mem_cons_self)
  refine ⟨_, insertHead_cons hnum hstrung.head hba (hstrung.isSome List.mem_cons_self) d, rfl, ?_⟩
  have hitems' : l.items = [] ++ b :: bs := hitems
  apply h.insert hitems' ha
  · simp [setPrev, setNext, newNode, hba]
  · intro c hc
    cases hc
  · intro c hc
    have hca : c ≠ a := fun heq => hfresh (heq ▸ hc)
    simp [setPrev, setNext, newNode, hca, Ne.symm hca]
  · rfl
  · rfl
  · rfl
  · exact hne

theorem Linkit.Shows.insertTail (h : s.Shows l) (ha : s.heap a = none) (hne : l.items ≠ [])
    (hnum : s.numNodes ≠ 0) (d : ℤ) :
    ∃ s', LinkedList.insertTail s d (some a) = some (.success, s') ∧
      s'.numNodes = s.numNodes + 1 ∧ s.Inserted s' l l.items.length a d := by
  have hstrung := h.strung
  have hlast := List.getLast?_eq_some_getLast hne
  have hfresh := hstrung.not_mem ha
  have hmem := List.getLast_mem hne
  have hba : l.items.getLast hne ≠ a := fun heq => hfresh (heq ▸ hmem)
  have htail := (hstrung.tail (.inl hne)).trans hlast
  refine ⟨_, insertTail_concat hnum htail hba (hstrung.isSome hmem) d, rfl, ?_⟩
  have hitems : l.items = l.items ++ [] := by simp
  apply h.insert hitems ha
  · simp [setPrev, setNext, newNode, hba, hlast]
  · intro c hc
    have hca : c ≠ a := fun heq => hfresh (heq ▸ hc)
    simp [setPrev, setNext, newNode, hca, Ne.symm hca, hlast]
  · intro c hc
    cases hc
  · simp [hne]
  · rfl
  · rfl
  · exact hne

section Beside

variable {pr nx : Option ℕ} {db : ℤ}

/-- The new node is linked in between the current one and the next. -/
theorem Linkit.Place.insertNext_eq (h : s.Place b pr nx db) (hcur : s.currentElem = some b)
    (ha : s.heap a = none) (d : ℤ) :
    insertNext s d (some a) = some (.success, { s with
      heap := setPrev (setNext (setNext (setPrev (newNode s.heap a d) (some a) (some b))
        (some a) nx) (some b) (some a)) nx (some a)
      tail := if nx = none then some a else s.tail }) := by
  have hba : b ≠ a := fun heq => by simp [← heq, h.node] at ha
  have hnew : setPrev (newNode s.heap a d) (some a) (some b) a = some ⟨some b, none, d⟩ := by
    simp [setPrev, newNode]
  have hold : setPrev (newNode s.heap a d) (some a) (some b) b = some ⟨pr, nx, db⟩ := by
    rw [setPrev_of_ne (by simpa using Ne.symm hba), newNode_of_ne s.heap d hba, h.node]
  have hlinked : setNext (setNext (setPrev (newNode s.heap a d) (some a) (some b)) (some a) nx)
      (some b) (some a) a = some ⟨some b, nx, d⟩ := by
    simp [setNext, hnew, hba]
  simp only [insertNext, h.counted, hcur, writePrev_eq, newNode_self, Option.isSome_some,
    readNext_eq hold, writeNext_eq, hnew, hold, isSome_setNext, readNext_eq hlinked,
    Option.bind_eq_bind, Option.bind_some, reduceCtorEq, false_and, if_false]
  cases nx with
  | none => simp [h.tail.mpr rfl]
  | some c =>
    have htail : some b ≠ s.tail := fun heq => by simpa using h.tail.mp heq.symm
    obtain ⟨-, hc⟩ := h.next c rfl
    have hca : c ≠ a := fun heq => by simp [heq, ha] at hc
    simp [htail, writePrev_eq, newNode_of_ne s.heap d hca, hc]

/-- The new node is linked in between the previous one and the current one. -/
theorem Linkit.Place.insertPrev_eq (h : s.Place b pr nx db) (hcur : s.currentElem = some b)
    (ha : s.heap a = none) (d : ℤ) :
    insertPrev s d (some a) = some (.success, { s with
      heap := setNext (setPrev (setPrev (setNext (newNode s.heap a d) (some a) (some b))
        (some a) pr) (some b) (some a)) pr (some a)
      head := if pr = none then some a else s.head }) := by
  have hba : b ≠ a := fun heq => by simp [← heq, h.node] at ha
  have hnew : setNext (newNode s.heap a d) (some a) (some b) a = some ⟨none, some b, d⟩ := by
    simp [setNext, newNode]
  have hold : setNext (newNode s.heap a d) (some a) (some b) b = some ⟨pr, nx, db⟩ := by
    rw [setNext_of_ne (by simpa using Ne.symm hba), newNode_of_ne s.heap d hba, h.node]
  have hlinked : setPrev (setPrev (setNext (newNode s.heap a d) (some a) (some b)) (some a) pr)
      (some b) (some a) a = some ⟨pr, some b, d⟩ := by
    simp [setPrev, hnew, hba]
  simp only [insertPrev, h.counted, hcur, writeNext_eq, newNode_self, Option.isSome_some,
    readPrev_eq hold, writePrev_eq, hnew, hold, isSome_setPrev, readPrev_eq hlinked,
    Option.bind_eq_bind, Option.bind_some, reduceCtorEq, false_and, if_false]
  cases pr with
  | none => simp [h.head.mpr rfl]
  | some c =>
    have hhead : some b ≠ s.head := fun heq => by simpa using h.head.mp heq.symm
    obtain ⟨-, hc⟩ := h.prev c rfl
    have hca : c ≠ a := fun heq => by simp [heq, ha] at hc
    simp [hhead, writeNext_eq, newNode_of_ne s.heap d hca, hc]

end Beside

theorem Linkit.Strung.place (h : s.Strung (xs ++ a :: ys)) (hnum : s.numNodes ≠ 0) :
    ∃ d, s.Place a xs.getLast? ys.head? d := by
  obtain ⟨d, hd⟩ := (h.links (by simp)).place
  exact ⟨d, hd.node, hd.head, hd.tail, hd.prev, hd.next, hnum⟩

theorem Linkit.Shows.insertNext (h : s.Shows l) (hitems : l.items = xs ++ b :: ys)
    (hplace : l.place = some xs.length) (ha : s.heap a = none) (hnum : s.numNodes ≠ 0) (d : ℤ) :
    ∃ s', LinkedList.insertNext s d (some a) = some (.success, s') ∧
      s'.numNodes = s.numNodes ∧ s.Inserted s' l (xs.length + 1) a d := by
  have hcur := h.current.trans (CursorList.current_of_place hitems hplace)
  have hstrung := h.strung
  rw [hitems] at hstrung
  obtain ⟨db, hdb⟩ := hstrung.place hnum
  refine ⟨_, hdb.insertNext_eq hcur ha d, rfl, ?_⟩
  obtain ⟨hax, hab, hay⟩ : a ∉ xs ∧ a ≠ b ∧ a ∉ ys := by simpa using hstrung.not_mem ha
  have hdisjoint : ∀ c ∈ xs ++ [b], ys.head? ≠ some c := by
    intro c hc hhead
    have hnodup : ((xs ++ [b]) ++ ys).Nodup := by simpa using hstrung.nodup
    exact (List.nodup_append.mp hnodup).2.2 c hc c (List.mem_of_head? hhead) rfl
  have hlength : xs.length + 1 = (xs ++ [b]).length := by simp
  have hitems' : l.items = (xs ++ [b]) ++ ys := by simp [hitems]
  rw [hlength]
  apply h.insert hitems' ha
  · dsimp only
    rw [setPrev_of_ne fun heq => hay (List.mem_of_head? heq)]
    simp [setPrev, setNext, newNode, hab.symm]
  · intro c hc
    have hca : c ≠ a := by
      rintro rfl
      simp [hax, hab] at hc
    dsimp only
    rw [setPrev_of_ne (hdisjoint c hc)]
    simp [setPrev, setNext, newNode, hca, Ne.symm hca]
  · intro c hc
    have hca : c ≠ a := fun heq => hay (heq ▸ hc)
    have hcb : b ≠ c := by
      rintro rfl
      exact (List.nodup_cons.mp (List.nodup_append.mp hstrung.nodup).2.1).1 hc
    simp [setPrev, setNext, newNode, hca, Ne.symm hca, hcb]
  · simp
  · simp
  · rfl
  · simp [hitems]

theorem Linkit.Shows.insertPrev (h : s.Shows l) (hitems : l.items = xs ++ b :: ys)
    (hplace : l.place = some xs.length) (ha : s.heap a = none) (hnum : s.numNodes ≠ 0) (d : ℤ) :
    ∃ s', LinkedList.insertPrev s d (some a) = some (.success, s') ∧
      s'.numNodes = s.numNodes ∧ s.Inserted s' l xs.length a d := by
  have hcur := h.current.trans (CursorList.current_of_place hitems hplace)
  have hstrung := h.strung
  rw [hitems] at hstrung
  obtain ⟨db, hdb⟩ := hstrung.place hnum
  refine ⟨_, hdb.insertPrev_eq hcur ha d, rfl, ?_⟩
  obtain ⟨hax, hab, hay⟩ : a ∉ xs ∧ a ≠ b ∧ a ∉ ys := by simpa using hstrung.not_mem ha
  have hdisjoint : ∀ c ∈ b :: ys, xs.getLast? ≠ some c := by
    intro c hc hlast
    exact (List.nodup_append.mp hstrung.nodup).2.2 c (List.mem_of_getLast? hlast) c hc rfl
  apply h.insert hitems ha
  · dsimp only
    rw [setNext_of_ne fun heq => hax (List.mem_of_getLast? heq)]
    simp [setPrev, setNext, newNode, hab.symm]
  · intro c hc
    have hca : c ≠ a := fun heq => hax (heq ▸ hc)
    have hcb : b ≠ c := by
      rintro rfl
      exact (List.nodup_append.mp hstrung.nodup).2.2 b hc b List.mem_cons_self rfl
    simp [setPrev, setNext, newNode, hca, Ne.symm hca, hcb]
  · intro c hc
    have hca : c ≠ a := by
      rintro rfl
      simp [hay, hab] at hc
    dsimp only
    rw [setNext_of_ne (hdisjoint c hc)]
    simp [setPrev, setNext, newNode, hca, Ne.symm hca]
  · simp
  · simp
  · rfl
  · simp [hitems]

theorem shows_single (hnode : s'.heap a = some ⟨none, none, d⟩) (hhead : s'.head = some a)
    (htail : s'.tail = some a) (hcurrent : s'.currentElem = some a) :
    s'.Shows (.single a) ∧ (CursorList.single a).map (dataAt s'.heap) = .single d := by
  refine ⟨⟨⟨List.nodup_singleton a, ?_, hhead, fun _ => htail⟩, hcurrent⟩, ?_⟩
  · exact ⟨⟨d, hnode⟩, trivial⟩
  · rw [CursorList.map_single, dataAt_eq hnode]

/-! ### Removal -/

theorem Linkit.Shows.unlinked (h : s.Shows l) (hitems : l.items = xs ++ a :: ys) :
    (s.unlinked a xs.getLast? ys.head?).Shows (l.removeAt xs.length) ∧
      (l.removeAt xs.length).map (dataAt (s.unlinked a xs.getLast? ys.head?).heap) =
        (l.map (dataAt s.heap)).removeAt xs.length := by
  have hstrung := h.strung
  rw [hitems] at hstrung
  have hlinks := (hstrung.links (by simp)).unlinked
  have hrest := CursorList.items_removeAt hitems
  refine ⟨⟨?_, ?_⟩, ?_⟩
  · rw [hrest]
    exact ⟨hlinks.nodup, hlinks.segment, hlinks.head, fun _ => hlinks.tail⟩
  · rw [CursorList.current_removeAt h.strung.nodup hitems, ← h.current]
    rfl
  · rw [← CursorList.map_removeAt]
    apply CursorList.map_congr
    intro b hb
    rw [hrest] at hb
    have hba : b ≠ a := by
      rintro rfl
      exact (List.nodup_cons.mp (List.nodup_middle.mp hstrung.nodup)).1 hb
    exact dataAt_congr (unlinked_heap_of_ne xs ys hba).1

theorem Linkit.Strung.dataRemove_eq (h : s.Strung (xs ++ a :: ys)) {data : ℤ}
    (hfound : firstFrom s.heap (fun d => data = d) fuel s.head = some (some a)) :
    dataRemove fuel s data = some (.success, s.unlinked a xs.getLast? ys.head?) := by
  obtain ⟨d, hd⟩ := (h.links (by simp)).place
  have hhead : s.head ≠ none := by
    rw [ne_eq, h.head_eq_none]
    simp
  have hleave : leaveElem s (some a) = some _ := hd.leaveElem_eq
  have hunlink : dataUnlink s (some a) = some _ := hd.dataUnlink_eq.trans hd.elemUnlink_eq
  have hsome : ((s.recount (xs ++ a :: ys)).heap a).isSome := by
    rw [hd.node]
    rfl
  rw [dataRemove, if_neg hhead, hfound]
  simp only [Option.bind_eq_bind, Option.bind_some, hleave, hunlink, reduceCtorEq, if_false]
  rw [release_eq (by simpa using hsome)]
  rfl

/-- The search of `data_remove` stops at the first place of the value. -/
theorem Linkit.Strung.firstFrom_eq (h : s.Strung as) (hfuel : as.length ≤ fuel) (data : ℤ) :
    firstFrom s.heap (fun d => data = d) fuel s.head =
      some (as.find? fun a => dataAt s.heap a = data) := by
  rw [h.head, LinkedList.firstFrom_eq h.segment.nextChain _ hfuel]
  congr 1
  apply List.find?_congr
  intro a ha
  obtain ⟨node, hnode⟩ := Option.isSome_iff_exists.mp (h.isSome ha)
  simp [hnode, dataAt_eq hnode, eq_comm]

theorem find?_data {h : NodeHeap} {data : ℤ} (hdata : data ∈ as.map (dataAt h)) :
    ∃ xs a ys, as = xs ++ a :: ys ∧ as.find? (fun a => dataAt h a = data) = some a ∧
      (as.map (dataAt h)).idxOf data = xs.length := by
  induction as with
  | nil => simp at hdata
  | cons b as ih =>
    by_cases hb : dataAt h b = data
    · exact ⟨[], b, as, rfl, by simp [hb], by simp [hb]⟩
    · have hrest : data ∈ as.map (dataAt h) := by
        rcases List.mem_cons.mp hdata with heq | hmem
        · exact absurd heq.symm hb
        · exact hmem
      obtain ⟨xs, a, ys, rfl, hfind, hidx⟩ := ih hrest
      refine ⟨b :: xs, a, ys, rfl, ?_, ?_⟩
      · rw [List.find?_cons_of_neg (by simpa using hb), hfind]
      · rw [List.map_cons, List.idxOf_cons_ne _ hb, hidx]
        rfl

/-! ### Sorting, display and destruction -/

theorem listSort_recount (as : List ℕ) (hnum : s.numNodes ≠ 0) (hne : as ≠ [])
    (isAscending : Bool) :
    listSort fuel (s.recount as) isAscending =
      (listSort fuel s isAscending).map fun r => (r.1, r.2.recount as) := by
  have hrecount : (s.recount as).numNodes ≠ 0 := by simpa [Linkit.recount] using hne
  rw [listSort, listSort, if_neg hrecount, if_neg hnum]
  change ((sortLoop fuel isAscending fuel ⟨s.heap, none, none⟩ s.head).bind _) =
    ((sortLoop fuel isAscending fuel ⟨s.heap, none, none⟩ s.head).bind _).map _
  rw [Option.map_bind]
  rfl

theorem Linkit.Shows.listSort (h : s.Shows l) (hfuel : l.items.length ≤ fuel)
    (hne : l.items ≠ []) (hnum : s.numNodes ≠ 0) (isAscending : Bool) :
    ∃ s', LinkedList.listSort fuel s isAscending = some (.success, s') ∧
      s'.numNodes = s.numNodes ∧ s'.Shows (l.sort (nodeOrder isAscending s.heap)) ∧
      (l.sort (nodeOrder isAscending s.heap)).map (dataAt s'.heap) =
        (l.map (dataAt s.heap)).sort (Editor.order isAscending) := by
  obtain ⟨s₁, hs₁, hlinks, hdata, hcurrent⟩ :=
    (h.strung.links hne).listSort hfuel isAscending
  rw [listSort_recount l.items hnum hne] at hs₁
  obtain ⟨⟨r, s'⟩, hs', heq⟩ := Option.map_eq_some_iff.mp hs₁
  cases heq
  have hcount : s'.numNodes = s.numNodes := by
    rw [LinkedList.listSort, if_neg hnum] at hs'
    obtain ⟨t, -, ht⟩ := Option.bind_eq_some_iff.mp hs'
    cases ht
    rfl
  refine ⟨s', hs', hcount, ⟨?_, ?_⟩, ?_⟩
  · exact ⟨hlinks.nodup, hlinks.segment, hlinks.head, fun _ => hlinks.tail⟩
  · rw [CursorList.current_sort (nodeOrder_preorder isAscending s.heap), ← h.current]
    exact hcurrent
  · rw [← CursorList.map_sort]
    apply CursorList.map_congr
    intro b _
    exact dataAt_congr (hdata b)

theorem displayLoop_eq {h : NodeHeap} (hchain : NextChain h as none) (hne : as ≠ [])
    (hfuel : as.length ≤ fuel) : displayLoop fuel h as.head? = some (as.map (dataAt h)) := by
  induction as generalizing fuel with
  | nil => exact absurd rfl hne
  | cons a as ih =>
    obtain ⟨⟨p, d, hd⟩, hchain⟩ := hchain
    cases fuel with
    | zero => simp at hfuel
    | succ fuel =>
      rw [List.head?_cons, displayLoop, readData_eq hd, readNext_eq hd]
      cases as with
      | nil => simp [dataAt_eq hd]
      | cons b as =>
        have hrest := ih hchain (by simp) (by simpa using hfuel)
        simp only [List.head?_cons] at hrest
        simp [hrest, dataAt_eq hd]

theorem displayLoop_none (fuel : ℕ) (h : NodeHeap) : displayLoop fuel h none = none := by
  cases fuel <;> rfl

theorem destroyLoop_none (fuel : ℕ) (h : NodeHeap) : destroyLoop fuel h none = none := by
  cases fuel <;> rfl

theorem destroyLoop_isSome {h : NodeHeap} (hchain : NextChain h as none) (hnodup : as.Nodup)
    (hne : as ≠ []) (hfuel : as.length ≤ fuel) : ∃ h', destroyLoop fuel h as.head? = some h' := by
  induction as generalizing fuel h with
  | nil => exact absurd rfl hne
  | cons a as ih =>
    obtain ⟨⟨p, d, hd⟩, hchain⟩ := hchain
    obtain ⟨ha, hnodup⟩ := List.nodup_cons.mp hnodup
    cases fuel with
    | zero => simp at hfuel
    | succ fuel =>
      rw [List.head?_cons, destroyLoop, readNext_eq hd, release_eq (by simp [hd])]
      cases as with
      | nil => simp
      | cons b as =>
        have hrest : NextChain (Function.update h a none) (b :: as) none := by
          apply hchain.congr
          intro c hc
          have hca : c ≠ a := fun heq => ha (heq ▸ hc)
          rw [Function.update_of_ne hca]
        obtain ⟨h', hh'⟩ := ih hrest hnodup (by simp) (by simpa using hfuel)
        simp only [List.head?_cons] at hh'
        simp [hh']

end MorningProjects.LinkedList
