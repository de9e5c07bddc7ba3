import MorningProjects.Library.Simulation
import MorningProjects.LinkedList.Run
import MorningProjects.LinkedList.Shown

/-!
# The demo answers as the editor does

Every command leads from a list that shows the text of the editor to one that
shows what the editor has then, and prints the same; where the editor has no
answer the program follows NULL. The tail that `list_destroy` leaves behind is
the one thing the editor does not know.
-/
namespace MorningProjects.LinkedList
open Library

/-- Both fail, or both go on with lists of at most `n` nodes or end, and print the same. -/
def Agree (n : ℕ) : Option Outcome → Option Editor.Outcome → Prop :=
  Option.Rel fun x y => Option.Rel (Linkit.Shown n) x.1 y.1 ∧ x.2 = y.2

def Linkit.edited (s : Linkit) (l : CursorList ℕ) : Editor := ⟨l.map (dataAt s.heap), s.numNodes⟩

/-- `malloc` returns a node that is not in use, and nobody moves to the tail of a list that was
destroyed. -/
def Linkit.Expects (s : Linkit) : Command → Prop
  | .addHead _ malloc | .addTail _ malloc | .addPrev _ malloc | .addNext _ malloc =>
    s.Fresh malloc
  | .moveTail => s.head = none → s.tail = none
  | _ => True

def mainExpects : Option Linkit → Command → Prop
  | none, _ => True
  | some s, c => s.Expects c

instance (s : Linkit) (malloc : Option ℕ) : Decidable (s.Fresh malloc) :=
  match malloc with
  | none => isTrue fun _ h => absurd h.symm (Option.some_ne_none _)
  | some a =>
    decidable_of_iff ((s.heap a).isNone) ⟨fun h _ ha => Option.some.inj ha ▸ by simpa using h,
      fun h => by simp [h a rfl]⟩

instance (s : Option Linkit) (c : Command) : Decidable (mainExpects s c) :=
  match s, c with
  | none, _ => isTrue trivial
  | some s, .addHead _ malloc | some s, .addTail _ malloc | some s, .addPrev _ malloc
  | some s, .addNext _ malloc => inferInstanceAs (Decidable (s.Fresh malloc))
  | some s, .moveTail => inferInstanceAs (Decidable (s.head = none → s.tail = none))
  | some _, .moveHead | some _, .movePrev | some _, .moveNext | some _, .printCurrent
  | some _, .printPrev | some _, .printNext | some _, .printAll | some _, .removeCurrent
  | some _, .removePrev | some _, .removeNext | some _, .removeAll | some _, .sort _
  | some _, .isHead | some _, .isTail | some _, .count | some _, .quit
  | some _, .dataRemove _ => isTrue trivial

variable {s s' : Linkit} {l l' : CursorList ℕ} {xs ys : List ℕ} {a b n fuel : ℕ} {d : ℤ}
  {e : Editor} {messages : List Message}

@[simp] theorem edited_place : (s.edited l).text.place = l.place := rfl

@[simp] theorem edited_items : (s.edited l).text.items = l.items.map (dataAt s.heap) := rfl

@[simp] theorem edited_count : (s.edited l).count = s.numNodes := rfl

theorem Linkit.Shows.shown (h : s.Shows l) (hn : l.items.length ≤ n) : s.Shown n (s.edited l) :=
  ⟨l, h, hn, rfl, rfl⟩

theorem agree_ended : Agree n (some (none, messages)) (some (none, messages)) :=
  .some ⟨.none, rfl⟩

theorem Linkit.Shown.agree (h : s.Shown n e) :
    Agree n (some (some s, messages)) (some (some e, messages)) :=
  .some ⟨.some h, rfl⟩

section Commands

variable (h : s.Shows l) (hn : l.items.length ≤ n)
include h

/-! ### The neighbours of the cursor -/

theorem Linkit.Shows.currentElem_eq_none : s.currentElem = none ↔ l.place = none := by
  rw [h.current, CursorList.current_eq_none]

theorem Linkit.Shows.readNext_eq (hitems : l.items = xs ++ a :: ys)
    (hplace : l.place = some xs.length) :
    readNext s.heap (some a) = some (l.next.bind fun i => l.items[i]?) := by
  have hstrung := h.strung
  rw [hitems] at hstrung
  rw [Library.readNext_eq hstrung.node, CursorList.next_eq hitems hplace, hitems]
  cases ys <;> simp

theorem Linkit.Shows.readPrev_eq (hitems : l.items = xs ++ a :: ys)
    (hplace : l.place = some xs.length) :
    readPrev s.heap (some a) = some (l.prev.bind fun i => l.items[i]?) := by
  have hstrung := h.strung
  rw [hitems] at hstrung
  rw [Library.readPrev_eq hstrung.node, CursorList.prev_eq hplace, hitems]
  cases xs using List.reverseRecOn <;> simp

include hn

/-- A command on a neighbour agrees if it does where there is a neighbour. -/
theorem Linkit.Shows.atNeighbour {read : NodeHeap → Option ℕ → Option (Option ℕ)}
    {place : Option ℕ} {atEnd : Message} {f : ℕ → Option Outcome} {g : ℕ → Editor.Outcome}
    (hread : ∀ xs a ys, l.items = xs ++ a :: ys → l.place = some xs.length →
      read s.heap (some a) = some (place.bind fun i => l.items[i]?))
    (hvalid : ∀ i, place = some i → i < l.items.length)
    (hcommand : ∀ xs a ys, l.items = xs ++ a :: ys → place = some xs.length →
      Agree n (f a) (some (g xs.length))) :
    Agree n (LinkedList.atNeighbour s read atEnd f)
      (some ((s.edited l).atNeighbour place atEnd g)) := by
  by_cases hnone : l.place = none
  · rw [LinkedList.atNeighbour, Editor.atNeighbour, if_pos (h.currentElem_eq_none.mpr hnone),
      edited_place, if_pos hnone]
    exact (h.shown hn).agree
  · obtain ⟨i, hi⟩ := Option.ne_none_iff_exists'.mp hnone
    obtain ⟨xs, a, ys, hitems, rfl⟩ := CursorList.exists_split (l.valid i hi)
    have hcurrent := h.current.trans (CursorList.current_of_place hitems hi)
    rw [LinkedList.atNeighbour, Editor.atNeighbour, if_neg (mt h.currentElem_eq_none.mp hnone),
      edited_place, if_neg hnone, hcurrent, hread xs a ys hitems hi]
    cases hplace : place with
    | none => exact (h.shown hn).agree
    | some j =>
      obtain ⟨zs, b, ws, hitems', rfl⟩ := CursorList.exists_split (hvalid j hplace)
      have hb : l.items[zs.length]? = some b := by simp [hitems']
      simp only [Option.bind_some, hb, Option.elim_some]
      exact hcommand zs b ws hitems' hplace

theorem Linkit.Shows.atNext {f : ℕ → Option Outcome} {g : ℕ → Editor.Outcome}
    (hcommand : ∀ xs a ys, l.items = xs ++ a :: ys → Agree n (f a) (some (g xs.length))) :
    Agree n (LinkedList.atNeighbour s readNext .atTail f)
      (some ((s.edited l).atNeighbour (s.edited l).text.next .atTail g)) := by
  rw [Linkit.edited, CursorList.next_map]
  apply h.atNeighbour hn
  · intro xs a ys
    exact h.readNext_eq
  · intro i hi
    simpa using (Option.filter_eq_some_iff.mp hi).2
  · intro xs a ys hitems _
    exact hcommand xs a ys hitems

theorem Linkit.Shows.atPrev {f : ℕ → Option Outcome} {g : ℕ → Editor.Outcome}
    (hcommand : ∀ xs a ys, l.items = xs ++ a :: ys → Agree n (f a) (some (g xs.length))) :
    Agree n (LinkedList.atNeighbour s readPrev .atHead f)
      (some ((s.edited l).atNeighbour (s.edited l).text.prev .atHead g)) := by
  rw [Linkit.edited, CursorList.prev_map]
  apply h.atNeighbour hn
  · intro xs a ys
    exact fun hitems hplace => h.readPrev_eq hitems hplace
  · intro i hi
    obtain ⟨c, hc, hi⟩ := Option.bind_eq_some_iff.mp hi
    have hlt := l.valid c hc
    split_ifs at hi
    cases hi
    omega
  · intro xs a ys hitems _
    exact hcommand xs a ys hitems

/-! ### Moving, removing and inserting -/

theorem Linkit.Shows.moveTo {elem place : Option ℕ}
    (helem : elem = place.bind fun i => l.items[i]?) :
    Linkit.Shown n { s with currentElem := elem } ((s.edited l).moveTo place) := by
  refine ⟨l.setPlace place, ⟨⟨h.strung.nodup, h.strung.segment, h.strung.head, h.strung.tail⟩, ?_⟩,
    hn, CursorList.map_setPlace _ place, rfl⟩
  rw [CursorList.current_setPlace]
  exact helem

theorem Linkit.Shows.removing (hitems : l.items = xs ++ a :: ys) :
    Agree n (LinkedList.removing s (some a)) (some ((s.edited l).removing (some xs.length))) := by
  by_cases hnum : s.numNodes = 0
  · rw [LinkedList.removing, removeElem, if_neg (by simp), if_pos hnum]
    simp only [Editor.removing, edited_count, hnum, if_true]
    exact (h.shown hn).agree
  · have hstrung := h.strung
    rw [hitems] at hstrung
    obtain ⟨d, hd⟩ := hstrung.place hnum
    rw [LinkedList.removing, hd.removeElem_eq]
    simp only [Editor.removing, edited_count, hnum, if_false]
    obtain ⟨hshows, htext⟩ := h.unlinked hitems
    apply Linkit.Shown.agree
    refine ⟨_, hshows, ?_, htext, rfl⟩
    exact (List.length_eraseIdx_le l.items xs.length).trans hn

theorem Linkit.Shows.removeCurrent :
    Agree n (LinkedList.removing s s.currentElem) (some ((s.edited l).removing l.place)) := by
  cases hplace : l.place with
  | none =>
    rw [h.currentElem_eq_none.mpr hplace]
    exact (h.shown hn).agree
  | some i =>
    obtain ⟨xs, a, ys, hitems, rfl⟩ := CursorList.exists_split (l.valid i hplace)
    rw [h.current.trans (CursorList.current_of_place hitems hplace)]
    exact h.removing hn hitems

theorem Linkit.Shows.removingData (hfuel : n ≤ fuel) (data : ℤ) :
    Agree n (LinkedList.removingData fuel s data) (some ((s.edited l).removingData data)) := by
  by_cases hhead : s.head = none
  · have hnil := h.strung.head_eq_none.mp hhead
    rw [LinkedList.removingData, if_pos hhead, Editor.removingData, if_pos (by simp [hnil])]
    exact agree_ended
  · have hnil := mt h.strung.head_eq_none.mpr hhead
    have hfind := h.strung.firstFrom_eq (hn.trans hfuel) data
    rw [LinkedList.removingData, if_neg hhead, Editor.removingData, if_neg (by simpa using hnil)]
    by_cases hdata : data ∈ l.items.map (dataAt s.heap)
    · obtain ⟨xs, a, ys, hitems, hfound, hidx⟩ := find?_data hdata
      rw [hfound] at hfind
      have hstrung := h.strung
      rw [hitems] at hstrung
      rw [if_pos (by exact hdata), hfind, hstrung.dataRemove_eq hfind, edited_items, hidx]
      obtain ⟨hshows, htext⟩ := h.unlinked hitems
      apply Linkit.Shown.agree
      refine ⟨_, hshows, ?_, htext, rfl⟩
      exact (List.length_eraseIdx_le l.items xs.length).trans hn
    · have hnone : l.items.find? (fun a => dataAt s.heap a = data) = none := by
        apply List.find?_eq_none.mpr
        intro a ha heq
        exact hdata (List.mem_map.mpr ⟨a, ha, by simpa using heq⟩)
      rw [hnone] at hfind
      rw [if_neg (by exact hdata), hfind, dataRemove, if_neg hhead, hfind]
      exact (h.shown hn).agree

omit hn in
/-- An empty list that does not count as empty has neither head nor tail. -/
theorem Linkit.Shows.headless (hcount : s.numNodes ≠ 0) (hnil : l.items = []) :
    s.head = none ∧ s.tail = none := by
  have hstrung := h.strung
  rw [hnil] at hstrung
  exact ⟨hstrung.head, hstrung.tail (.inr hcount)⟩

/-! ### Inserting -/

omit h in
theorem Linkit.Inserted.shown {i : ℕ} {k : ℤ} (hins : s.Inserted s' l i a d)
    (hcount : s'.numNodes = s.numNodes + k) (hnum : s.numNodes ≠ 0) :
    s'.Shown (n + 1) ((s.edited l).insert i d k) := by
  refine ⟨_, hins.shows, ?_, ?_, hcount⟩
  · have hlength := List.length_insertIdx_le_succ (l := l.items) (x := a) (i := i)
    exact hlength.trans (by omega)
  · rw [hins.text, Editor.insert, if_neg (by exact hnum)]
    rfl

omit h hn in
theorem shown_single {i : ℕ} {k : ℤ} (hnode : s'.heap a = some ⟨none, none, d⟩)
    (hhead : s'.head = some a) (htail : s'.tail = some a) (hcurrent : s'.currentElem = some a)
    (hcount : s'.numNodes = s.numNodes + k) (hnum : s.numNodes = 0) :
    s'.Shown (n + 1) ((s.edited l).insert i d k) := by
  obtain ⟨hshows, htext⟩ := shows_single hnode hhead htail hcurrent
  refine ⟨_, hshows, by simp [CursorList.single], ?_, hcount⟩
  rw [htext, Editor.insert, if_pos (by exact hnum)]

/-- The insertions at the two ends agree: they start a list that counts as empty anew, follow
NULL where there is no end, and put the node at the end otherwise. -/
theorem Linkit.Shows.adding {insert : Linkit → ℤ → Option ℕ → Option (ExitStatus × Linkit)}
    {i : ℕ} {malloc : Option ℕ} (hfresh : s.Fresh malloc)
    (hfail : insert s d none = some (.failure, s))
    (hempty : ∀ a, s.numNodes = 0 → insert s d (some a) = some (.success, s.single a d))
    (hcrash : ∀ a, s.numNodes ≠ 0 → s.head = none ∧ s.tail = none → insert s d (some a) = none)
    (hinsert : ∀ a, s.heap a = none → l.items ≠ [] → s.numNodes ≠ 0 →
      ∃ s', insert s d (some a) = some (.success, s') ∧ s'.numNodes = s.numNodes + 1 ∧
        s.Inserted s' l i a d) :
    Agree (n + 1) ((insert s d malloc).map (LinkedList.adding []))
      ((s.edited l).adding i d malloc) := by
  cases malloc with
  | none =>
    rw [hfail]
    exact agree_ended
  | some a =>
    rw [Editor.adding, if_neg (by simp)]
    by_cases hnum : s.numNodes = 0
    · rw [hempty a hnum, if_neg fun hheadless => hheadless.1 hnum]
      exact (shown_single (newNode_self s.heap a d) rfl rfl rfl rfl hnum).agree
    · by_cases hnil : l.items = []
      · rw [hcrash a hnum (h.headless hnum hnil), if_pos ⟨hnum, by simp [hnil]⟩]
        exact .none
      · obtain ⟨s', hs', hcount, hins⟩ := hinsert a (hfresh a rfl) hnil hnum
        rw [hs', if_neg fun hheadless => hnil (by simpa using hheadless.2)]
        exact (hins.shown hn hcount hnum).agree

omit h hn in
theorem insertHead_headless (hnum : s.numNodes ≠ 0) (hends : s.head = none ∧ s.tail = none)
    (a : ℕ) (d : ℤ) : insertHead s d (some a) = none := by
  have hnext : setNext (newNode s.heap a d) (some a) none a = some ⟨none, none, d⟩ := by
    simp [setNext, newNode]
  simp [insertHead, hnum, hends.1, writeNext_eq, newNode_self, Library.readNext_eq hnext, writePrev]

omit h hn in
theorem insertTail_headless (hnum : s.numNodes ≠ 0) (hends : s.head = none ∧ s.tail = none)
    (a : ℕ) (d : ℤ) : insertTail s d (some a) = none := by
  have hprev : setPrev (newNode s.heap a d) (some a) none a = some ⟨none, none, d⟩ := by
    simp [setPrev, newNode]
  simp [insertTail, hnum, hends.2, writePrev_eq, newNode_self, Library.readPrev_eq hprev, writeNext]

/-- The insertions beside the cursor agree: they need a cursor or a count of zero. -/
theorem Linkit.Shows.addingBeside
    {insert : Linkit → ℤ → Option ℕ → Option (ExitStatus × Linkit)} {side : ℕ}
    {malloc : Option ℕ} (hfresh : s.Fresh malloc)
    (hrefuse : malloc = none ∨ s.currentElem = none ∧ s.numNodes ≠ 0 →
      insert s d malloc = some (.failure, s))
    (hempty : ∀ a, s.numNodes = 0 → insert s d (some a) = some (.success,
      ⟨newNode s.heap a d, s.numNodes, some a, some a, some a⟩))
    (hinsert : ∀ xs b ys a, l.items = xs ++ b :: ys → l.place = some xs.length →
      s.heap a = none → s.numNodes ≠ 0 → ∃ s', insert s d (some a) = some (.success, s') ∧
        s'.numNodes = s.numNodes ∧ s.Inserted s' l (xs.length + side) a d) :
    Agree (n + 1) ((insert s d malloc).map (LinkedList.adding (besideMessages s malloc)))
      (some ((s.edited l).addingBeside side d malloc)) := by
  have hcursor := h.currentElem_eq_none
  rw [Editor.addingBeside, edited_place, edited_count]
  cases hplace : l.place with
  | none =>
    have hcurrent := hcursor.mpr hplace
    by_cases hnum : s.numNodes = 0
    · rw [if_neg (by simpa using hnum)]
      cases malloc with
      | none =>
        rw [hrefuse (.inl rfl)]
        simp [LinkedList.adding, besideMessages, hnum, agree_ended]
      | some a =>
        rw [hempty a hnum]
        have hshown : Linkit.Shown (n + 1)
            ⟨newNode s.heap a d, s.numNodes, some a, some a, some a⟩
            ((s.edited l).insert 0 d 0) :=
          shown_single (newNode_self s.heap a d) rfl rfl rfl (by simp) hnum
        simpa [LinkedList.adding, besideMessages, hnum] using hshown.agree
    · rw [if_pos hnum, hrefuse (.inr ⟨hcurrent, hnum⟩)]
      simp [LinkedList.adding, besideMessages, hnum, hcurrent, agree_ended]
  | some i =>
    have hcurrent : s.currentElem ≠ none := fun heq => by simp [hcursor.mp heq] at hplace
    obtain ⟨xs, b, ys, hitems, rfl⟩ := CursorList.exists_split (l.valid i hplace)
    cases malloc with
    | none =>
      rw [hrefuse (.inl rfl)]
      simp [LinkedList.adding, besideMessages, hcurrent, agree_ended]
    | some a =>
      by_cases hnum : s.numNodes = 0
      · rw [hempty a hnum]
        have hshown : Linkit.Shown (n + 1)
            ⟨newNode s.heap a d, s.numNodes, some a, some a, some a⟩
            ((s.edited l).insert (xs.length + side) d 0) :=
          shown_single (newNode_self s.heap a d) rfl rfl rfl (by simp) hnum
        simpa [LinkedList.adding, besideMessages, hnum] using hshown.agree
      · obtain ⟨s', hs', hcount, hins⟩ := hinsert xs b ys a hitems hplace (hfresh a rfl) hnum
        rw [hs']
        have hshown := hins.shown (k := 0) hn (by simpa using hcount) hnum
        simpa [LinkedList.adding, besideMessages, hcurrent, hnum] using hshown.agree

/-! ### The whole list -/

theorem Linkit.Shows.listDisplay (hfuel : n ≤ fuel) :
    listDisplay fuel s = (s.edited l).display := by
  by_cases hnum : s.numNodes = 0
  · rw [LinkedList.listDisplay, Editor.display, if_pos hnum, if_pos (by exact hnum)]
  · rw [LinkedList.listDisplay, Editor.display, if_neg hnum, if_neg (by exact hnum)]
    by_cases hnil : l.items = []
    · rw [(h.headless hnum hnil).1, displayLoop_none, if_pos (by simp [hnil])]
      rfl
    · rw [h.strung.head, displayLoop_eq h.strung.segment.nextChain hnil (hn.trans hfuel),
        if_neg (by simpa using hnil)]
      rfl

theorem Linkit.Shows.listDestroy (hfuel : n ≤ fuel) :
    Option.Rel (fun x e => Linkit.Shown n x.2 e ∧ x.2.numNodes = 0) (listDestroy fuel s)
      (s.edited l).destroy := by
  by_cases hnum : s.numNodes = 0
  · rw [LinkedList.listDestroy, Editor.destroy, if_pos hnum, if_pos (by exact hnum)]
    have hshown : Linkit.Shown n { s with currentElem := none } ((s.edited l).moveTo none) :=
      h.moveTo hn rfl
    rw [Editor.moveTo, edited_count, hnum] at hshown
    exact .some ⟨hshown, rfl⟩
  · rw [LinkedList.listDestroy, Editor.destroy, if_neg hnum, if_neg (by exact hnum)]
    by_cases hnil : l.items = []
    · rw [(h.headless hnum hnil).1, destroyLoop_none, if_pos (by simp [hnil])]
      exact .none
    · obtain ⟨heap, hheap⟩ := destroyLoop_isSome h.strung.segment.nextChain h.strung.nodup hnil
        (hn.trans hfuel)
      rw [h.strung.head, hheap, if_neg (by simpa using hnil)]
      refine .some ⟨⟨.empty, ⟨⟨List.nodup_nil, trivial, rfl, ?_⟩, rfl⟩, Nat.zero_le n, rfl, rfl⟩,
        rfl⟩
      rintro (hne | hcount)
      · exact absurd rfl hne
      · exact absurd rfl hcount

theorem Linkit.Shows.sorting (hfuel : n ≤ fuel) (isAscending : Bool) :
    Agree n ((LinkedList.listSort fuel s isAscending).map fun r =>
        (some r.2, if s.numNodes = 0 then [.noSorting] else []))
      ((s.edited l).sorting isAscending) := by
  by_cases hnum : s.numNodes = 0
  · have hcount : (s.edited l).count = 0 := hnum
    rw [LinkedList.listSort, Editor.sorting, if_pos hnum, if_pos hnum, if_pos hcount]
    exact (h.shown hn).agree
  · rw [Editor.sorting, if_neg hnum, if_neg (by exact hnum)]
    by_cases hnil : l.items = []
    · have hcrash : sortLoop fuel isAscending fuel ⟨s.heap, none, none⟩ none = none := by
        cases fuel <;> rfl
      rw [LinkedList.listSort, if_neg hnum, (h.headless hnum hnil).1, hcrash,
        if_pos (by simp [hnil])]
      exact .none
    · obtain ⟨s', hs', hcount, hshows, htext⟩ :=
        h.listSort (hn.trans hfuel) hnil hnum isAscending
      rw [hs', if_neg (by simpa using hnil)]
      apply Linkit.Shown.agree
      refine ⟨_, hshows, ?_, htext, hcount⟩
      simpa [CursorList.sort, stableSort] using hn

omit hn in
theorem Linkit.Shows.whether {i : ℕ} {elem : Option ℕ}
    (hend : l.items ≠ [] → i < l.items.length ∧ elem = l.items[i]?) :
    LinkedList.whether s elem = (s.edited l).whether i := by
  by_cases hnil : l.items = []
  · rw [LinkedList.whether, Editor.whether, if_pos (.inl (h.strung.head_eq_none.mpr hnil)),
      if_pos (by simp [hnil])]
  · obtain ⟨hi, rfl⟩ := hend hnil
    have hends : ¬ (s.head = none ∨ s.tail = none) := by
      rw [h.strung.head_eq_none, h.strung.tail (.inl hnil), List.getLast?_eq_none_iff]
      simpa using hnil
    rw [LinkedList.whether, Editor.whether, if_neg hends, if_neg (by simpa using hnil), h.current]
    have hiff := CursorList.current_eq_getElem? h.strung.nodup hi
    exact congrArg Message.answer (decide_eq_decide.mpr hiff)

theorem Linkit.Shows.command {c : Command} (hexpect : s.Expects c) (hfuel : n < fuel) :
    Agree (n + 1) (LinkedList.command fuel s c) ((s.edited l).command c) := by
  have hsucc : l.items.length ≤ n + 1 := by omega
  have hsame := h.shown hsucc
  cases c with
  | moveHead =>
    apply Linkit.Shown.agree
    apply h.moveTo hsucc
    rw [h.strung.head, List.head?_eq_getElem?]
    rfl
  | moveTail =>
    apply Linkit.Shown.agree
    apply h.moveTo hsucc
    rw [edited_items, List.length_map, Option.bind_some, ← List.getLast?_eq_getElem?]
    by_cases hnil : l.items = []
    · rw [hexpect (h.strung.head_eq_none.mpr hnil), hnil]
      rfl
    · exact h.strung.tail (.inl hnil)
  | movePrev =>
    apply h.atPrev hsucc
    intro xs a ys hitems
    apply Linkit.Shown.agree
    apply h.moveTo hsucc
    simp [hitems]
  | moveNext =>
    apply h.atNext hsucc
    intro xs a ys hitems
    apply Linkit.Shown.agree
    apply h.moveTo hsucc
    simp [hitems]
  | printCurrent =>
    rw [LinkedList.command, Editor.command, h.current]
    have hcurrent : (s.edited l).text.current = l.current.map (dataAt s.heap) :=
      CursorList.current_map _
    rw [hcurrent]
    cases hcur : l.current with
    | none => exact hsame.agree
    | some a =>
      rw [if_neg (by simp), h.strung.readData (CursorList.mem_of_current hcur)]
      exact hsame.agree
  | printPrev =>
    apply h.atPrev hsucc
    intro xs a ys hitems
    rw [h.strung.readData (by simp [hitems]), edited_items, hitems]
    simpa using hsame.agree
  | printNext =>
    apply h.atNext hsucc
    intro xs a ys hitems
    rw [h.strung.readData (by simp [hitems]), edited_items, hitems]
    simpa using hsame.agree
  | printAll =>
    rw [LinkedList.command, Editor.command, h.listDisplay hn hfuel.le]
    cases (s.edited l).display with
    | none => exact .none
    | some message => exact hsame.agree
  | removeCurrent => exact h.removeCurrent hsucc
  | removePrev =>
    apply h.atPrev hsucc
    intro xs a ys hitems
    exact h.removing hsucc hitems
  | removeNext =>
    apply h.atNext hsucc
    intro xs a ys hitems
    exact h.removing hsucc hitems
  | removeAll =>
    have hdestroy := h.listDestroy hsucc hfuel
    rw [LinkedList.command, Editor.command]
    generalize LinkedList.listDestroy fuel s = x at hdestroy ⊢
    generalize (s.edited l).destroy = y at hdestroy ⊢
    cases hdestroy with
    | none => exact .none
    | some hshown => exact hshown.1.agree
  | addHead data malloc =>
    exact h.adding hn hexpect rfl (fun a hnum => insertHead_empty hnum a data)
      (fun a hnum hends => insertHead_headless hnum hends a data)
      fun a ha hne hnum => h.insertHead ha hne hnum data
  | addTail data malloc =>
    have htail := h.adding hn hexpect rfl (fun a hnum => insertTail_empty hnum a data)
      (fun a hnum hends => insertTail_headless hnum hends a data)
      fun a ha hne hnum => h.insertTail ha hne hnum data
    rw [Editor.command, edited_items, List.length_map]
    exact htail
  | addPrev data malloc =>
    apply h.addingBeside hn hexpect fun hrefuse => insertPrev_refused hrefuse data
    · intro a hnum
      simp [LinkedList.insertPrev, hnum]
    · intro xs b ys a hitems hplace ha hnum
      exact h.insertPrev hitems hplace ha hnum data
  | addNext data malloc =>
    apply h.addingBeside hn hexpect fun hrefuse => insertNext_refused hrefuse data
    · intro a hnum
      simp [LinkedList.insertNext, hnum]
    · intro xs b ys a hitems hplace ha hnum
      exact h.insertNext hitems hplace ha hnum data
  | sort isAscending => exact h.sorting hsucc hfuel isAscending
  | isHead =>
    rw [LinkedList.command, Editor.command, h.whether fun hne => ⟨List.length_pos_iff.mpr hne, ?_⟩]
    · exact hsame.agree
    · rw [h.strung.head, List.head?_eq_getElem?]
  | isTail =>
    have hanswer : LinkedList.whether s s.tail = (s.edited l).whether (l.items.length - 1) := by
      apply h.whether
      intro hne
      have hpos := List.length_pos_iff.mpr hne
      rw [h.strung.tail (.inl hne), ← List.getLast?_eq_getElem?]
      exact ⟨by omega, rfl⟩
    rw [LinkedList.command, Editor.command, edited_items, List.length_map, hanswer]
    exact hsame.agree
  | count => exact hsame.agree
  | quit =>
    have hdestroy := h.listDestroy hsucc hfuel
    rw [LinkedList.command, Editor.command]
    generalize LinkedList.listDestroy fuel s = x at hdestroy ⊢
    generalize (s.edited l).destroy = y at hdestroy ⊢
    cases hdestroy with
    | none => exact .none
    | some hshown =>
      obtain ⟨⟨l', -, -, -, hcount⟩, hzero⟩ := hshown
      simp only [LinkedList.listDisplay, Editor.display, ← hcount, hzero, Option.bind_some,
        Option.bind_eq_bind, if_true]
      exact agree_ended
  | dataRemove data => exact h.removingData hsucc hfuel data

end Commands

/-- Any run of commands prints what the editor prints, and fails where the editor has no answer:
whatever the count has come to, and whether nodes were lost on the way or not. -/
theorem main_run_edits (commands : List Command) {fuel : ℕ} (hfuel : commands.length ≤ fuel)
    (hexpect : Along (changes (mainStep fuel)) mainExpects (some listInit) commands) :
    (answersFrom (mainStep fuel) (some listInit) commands).map Prod.snd =
      (answersFrom editorStep (some .start) commands).map Prod.snd := by
  have hstep : ∀ n (s : Option Linkit) (e : Option Editor) c, n < fuel →
      Option.Rel (Linkit.Shown n) s e → mainExpects s c →
      Agree (n + 1) (mainStep fuel s c) (editorStep e c) := by
    intro n s e c hn hrel hc
    cases hrel with
    | none => exact agree_ended
    | some hshown =>
      obtain ⟨l, hshows, hlength, htext, hcount⟩ := hshown
      have hedited : Linkit.edited _ l = _ := Editor.ext htext hcount
      rw [← hedited]
      exact hshows.command hlength hc hn
  exact answersFrom_agree (n := 0) hstep (by omega) (.some shown_start) hexpect

/-- A node beside the cursor is shown and not counted; the cursor moves with its node. -/
theorem main_run_edits_example :
    (answersFrom (mainStep 8) (some listInit) [.addTail 3 (some 10), .addTail 1 (some 11),
        .addNext 7 (some 12), .sort true, .printAll, .printPrev, .count, .quit]).map Prod.snd =
      some [[], [], [], [], [.listDisplay [1, 3, 7]], [.previousData 1], [.elements 2],
        [.listDestroyed, .listEmpty]] := by
  rw [main_run_edits _ (by decide) (by decide)]
  decide

end MorningProjects.LinkedList
