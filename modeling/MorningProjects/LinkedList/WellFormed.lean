import MorningProjects.LinkedList.Linkit

/-!
# Well-formed lists

`ListOf s as` says that `as` are the live nodes in order, linked in both
directions between the head and the tail, counted, and holding the cursor. Every
operation that keeps its own count takes such a state to such a state.
-/
namespace MorningProjects.LinkedList
open Library

/-- The nodes `as` are linked in both directions between the head and the tail, and counted. -/
structure Linkit.Links (s : Linkit) (as : List ℕ) : Prop where
  nodup : as.Nodup
  segment : Segment s.heap none as none
  head : s.head = as.head?
  tail : s.tail = as.getLast?
  counted : s.numNodes = as.length

structure Linkit.ListOf (s : Linkit) (as : List ℕ) : Prop where
  nodup : as.Nodup
  segment : Segment s.heap none as none
  live : ∀ a, (s.heap a).isSome → a ∈ as
  head : s.head = as.head?
  tail : s.tail = as.getLast?
  counted : s.numNodes = as.length
  cursor : ∀ a, s.currentElem = some a → a ∈ as

def Linkit.WellFormed (s : Linkit) : Prop := ∃ as, s.ListOf as

def Linkit.ListUpTo (n : ℕ) (s : Linkit) : Prop := ∃ as, s.ListOf as ∧ as.length ≤ n

variable {s : Linkit} {as xs ys : List ℕ} {a : ℕ} {d : ℤ}

theorem listOf_init : listInit.ListOf [] := by
  constructor
  · exact List.nodup_nil
  · trivial
  · intro a ha
    cases ha
  · rfl
  · rfl
  · rfl
  · intro a ha
    cases ha

theorem Linkit.ListOf.links (h : s.ListOf as) : s.Links as :=
  ⟨h.nodup, h.segment, h.head, h.tail, h.counted⟩

theorem Linkit.Links.isSome (h : s.Links as) (ha : a ∈ as) : (s.heap a).isSome :=
  h.segment.nextChain.isSome ha

theorem Linkit.Links.numNodes_eq_zero (h : s.Links as) : s.numNodes = 0 ↔ as = [] := by
  rw [h.counted]
  simp

theorem Linkit.ListOf.isSome (h : s.ListOf as) (ha : a ∈ as) : (s.heap a).isSome :=
  h.links.isSome ha

theorem Linkit.ListOf.numNodes_eq_zero (h : s.ListOf as) : s.numNodes = 0 ↔ as = [] :=
  h.links.numNodes_eq_zero

/-! ### Insertion at the ends -/

theorem Linkit.ListOf.not_mem (h : s.ListOf as) (ha : s.heap a = none) : a ∉ as := by
  intro hmem
  have := h.isSome hmem
  rw [ha] at this
  cases this

theorem newNode_self (h : NodeHeap) (a : ℕ) (d : ℤ) :
    newNode h a d a = some ⟨none, none, d⟩ := by
  simp [newNode]

theorem newNode_of_ne (h : NodeHeap) {a b : ℕ} (d : ℤ) (hb : b ≠ a) : newNode h a d b = h b := by
  simp [newNode, hb]

theorem Linkit.ListOf.insert (xs ys : List ℕ) (h : s.ListOf (xs ++ ys)) (ha : s.heap a = none)
    {s' : Linkit}
    (hnode : ∃ d, s'.heap a = some ⟨xs.getLast?, ys.head?, d⟩)
    (hlast : NextLast s.heap s'.heap xs (some a)) (hfirst : PrevFirst s.heap s'.heap ys (some a))
    (hlive : ∀ b, b ≠ a → (s'.heap b).isSome = (s.heap b).isSome)
    (hhead : s'.head = if xs = [] then some a else s.head)
    (htail : s'.tail = if ys = [] then some a else s.tail)
    (hcount : s'.numNodes = s.numNodes + 1)
    (hcursor : s'.currentElem = s.currentElem ∨ s'.currentElem = some a) :
    s'.ListOf (xs ++ a :: ys) := by
  have hfresh := h.not_mem ha
  constructor
  · rw [List.nodup_middle, List.nodup_cons]
    exact ⟨hfresh, h.nodup⟩
  · apply h.segment.link h.nodup _ hlast hfirst
    simpa using hnode
  · intro b hb
    by_cases heq : b = a
    · simp [heq]
    · have := h.live b (by rw [← hlive b heq]; exact hb)
      simp only [List.mem_append, List.mem_cons] at this ⊢
      tauto
  · rw [hhead, h.head]
    cases xs <;> simp
  · rw [htail, h.tail]
    cases ys <;> simp [List.getLast?_append, List.getLast?_cons]
  · rw [hcount, h.counted]
    simp only [List.length_append, List.length_cons]
    push_cast
    ring
  · intro b hb
    rcases hcursor with hc | hc
    · have := h.cursor b (by rw [← hc]; exact hb)
      simp only [List.mem_append, List.mem_cons] at this ⊢
      tauto
    · rw [hc] at hb
      cases hb
      simp

def Linkit.single (s : Linkit) (a : ℕ) (d : ℤ) : Linkit :=
  ⟨newNode s.heap a d, s.numNodes + 1, some a, some a, some a⟩

theorem setPrev_newNode (h : NodeHeap) (a : ℕ) (d : ℤ) :
    setPrev (newNode h a d) (some a) none = newNode h a d := by
  funext b
  by_cases hb : b = a
  · simp [setPrev, hb, newNode]
  · rw [setPrev_of_ne (by simpa using Ne.symm hb)]

theorem setNext_newNode (h : NodeHeap) (a : ℕ) (d : ℤ) :
    setNext (newNode h a d) (some a) none = newNode h a d := by
  funext b
  by_cases hb : b = a
  · simp [setNext, hb, newNode]
  · rw [setNext_of_ne (by simpa using Ne.symm hb)]

theorem insertHead_empty (hnum : s.numNodes = 0) (a : ℕ) (d : ℤ) :
    insertHead s d (some a) = some (.success, s.single a d) := by
  have hsome : (newNode s.heap a d a).isSome := by simp [newNode]
  simp [insertHead, hnum, writeNext_eq hsome, setNext_newNode, writePrev_eq hsome,
    setPrev_newNode, Linkit.single]

theorem insertTail_empty (hnum : s.numNodes = 0) (a : ℕ) (d : ℤ) :
    insertTail s d (some a) = some (.success, s.single a d) := by
  have hsome : (newNode s.heap a d a).isSome := by simp [newNode]
  simp [insertTail, hnum, writePrev_eq hsome, setPrev_newNode, writeNext_eq hsome,
    setNext_newNode, Linkit.single]

theorem Linkit.ListOf.single (h : s.ListOf []) (ha : s.heap a = none) (d : ℤ) :
    (s.single a d).ListOf [a] := by
  apply Linkit.ListOf.insert [] [] h ha
  · exact ⟨d, newNode_self s.heap a d⟩
  · intro b hb
    cases hb
  · intro b hb
    cases hb
  · intro b hb
    exact congrArg Option.isSome (newNode_of_ne s.heap d hb)
  · rfl
  · rfl
  · rfl
  · exact .inr rfl

theorem insertHead_cons {b : ℕ} (hnum : s.numNodes ≠ 0) (hhead : s.head = some b) (hba : b ≠ a)
    (hb : (s.heap b).isSome) (d : ℤ) :
    insertHead s d (some a) = some (.success,
      ⟨setPrev (setPrev (setNext (newNode s.heap a d) (some a) (some b)) (some b) (some a))
        (some a) none, s.numNodes + 1, some a, s.tail, s.currentElem⟩) := by
  have hnew : setNext (newNode s.heap a d) (some a) (some b) a = some ⟨none, some b, d⟩ := by
    simp [setNext, newNode]
  have hold : (setNext (newNode s.heap a d) (some a) (some b) b).isSome := by
    simpa [newNode_of_ne s.heap d hba] using hb
  simp [insertHead, hnum, hhead, writeNext_eq, newNode_self, readNext_eq hnew, writePrev_eq, hold,
    hnew]

theorem insertTail_concat {b : ℕ} (hnum : s.numNodes ≠ 0) (htail : s.tail = some b) (hba : b ≠ a)
    (hb : (s.heap b).isSome) (d : ℤ) :
    insertTail s d (some a) = some (.success,
      ⟨setNext (setNext (setPrev (newNode s.heap a d) (some a) (some b)) (some b) (some a))
        (some a) none, s.numNodes + 1, s.head, some a, s.currentElem⟩) := by
  have hnew : setPrev (newNode s.heap a d) (some a) (some b) a = some ⟨some b, none, d⟩ := by
    simp [setPrev, newNode]
  have hold : (setPrev (newNode s.heap a d) (some a) (some b) b).isSome := by
    simpa [newNode_of_ne s.heap d hba] using hb
  simp [insertTail, hnum, htail, writePrev_eq, newNode_self, readPrev_eq hnew, writeNext_eq, hold,
    hnew]

theorem Linkit.ListOf.insertHead (h : s.ListOf as) (ha : s.heap a = none) (d : ℤ) :
    ∃ s', LinkedList.insertHead s d (some a) = some (.success, s') ∧ s'.ListOf (a :: as) := by
  cases as with
  | nil =>
    have hnum := h.numNodes_eq_zero.mpr rfl
    exact ⟨_, insertHead_empty hnum a d, h.single ha d⟩
  | cons b as =>
    have hnum : s.numNodes ≠ 0 := by
      intro h0
      cases h.numNodes_eq_zero.mp h0
    have hfresh := h.not_mem ha
    have hba : b ≠ a := fun heq => hfresh (heq ▸ List.mem_cons_self)
    refine ⟨_, insertHead_cons hnum h.head hba (h.isSome List.mem_cons_self) d, ?_⟩
    apply Linkit.ListOf.insert [] (b :: as) h ha
    · exact ⟨d, by simp [setPrev, setNext, newNode, hba]⟩
    · intro c hc
      cases hc
    · intro c hc
      have hca : c ≠ a := fun heq => hfresh (heq ▸ hc)
      simp [setPrev, setNext, newNode, hca, Ne.symm hca]
    · intro c hc
      simp [newNode_of_ne s.heap d hc]
    · rfl
    · rfl
    · rfl
    · exact .inl rfl

theorem Linkit.ListOf.insertTail (h : s.ListOf as) (ha : s.heap a = none) (d : ℤ) :
    ∃ s', LinkedList.insertTail s d (some a) = some (.success, s') ∧ s'.ListOf (as ++ [a]) := by
  cases hlast : as.getLast? with
  | none =>
    obtain rfl := List.getLast?_eq_none_iff.mp hlast
    have hnum := h.numNodes_eq_zero.mpr rfl
    exact ⟨_, insertTail_empty hnum a d, h.single ha d⟩
  | some b =>
    have hb := List.mem_of_getLast? hlast
    have hnum : s.numNodes ≠ 0 := by
      intro h0
      rw [h.numNodes_eq_zero.mp h0] at hb
      cases hb
    have hfresh := h.not_mem ha
    have hba : b ≠ a := fun heq => hfresh (heq ▸ hb)
    refine ⟨_, insertTail_concat hnum (h.tail.trans hlast) hba (h.isSome hb) d, ?_⟩
    apply Linkit.ListOf.insert as [] (by simpa using h) ha
    · exact ⟨d, by simp [setPrev, setNext, newNode, hba, hlast]⟩
    · intro c hc
      have hca : c ≠ a := fun heq => hfresh (heq ▸ hc)
      simp [setPrev, setNext, newNode, hca, Ne.symm hca, hlast]
    · intro c hc
      cases hc
    · intro c hc
      simp [newNode_of_ne s.heap d hc]
    · have hne : as ≠ [] := List.ne_nil_of_mem hb
      simp [hne]
    · rfl
    · rfl
    · exact .inl rfl

/-! ### Removal -/

def Linkit.unlinked (s : Linkit) (a : ℕ) (pr nx : Option ℕ) : Linkit where
  heap := Function.update (setPrev (setNext s.heap pr nx) nx pr) a none
  numNodes := s.numNodes - 1
  head := if pr = none then nx else s.head
  tail := if nx = none then pr else s.tail
  currentElem := if s.currentElem = some a then nx else s.currentElem

/-- What the removal functions look at around the node `a`. -/
structure Linkit.Place (s : Linkit) (a : ℕ) (pr nx : Option ℕ) (d : ℤ) : Prop where
  node : s.heap a = some ⟨pr, nx, d⟩
  head : s.head = some a ↔ pr = none
  tail : s.tail = some a ↔ nx = none
  prev : ∀ b, pr = some b → b ≠ a ∧ (s.heap b).isSome
  next : ∀ b, nx = some b → b ≠ a ∧ (s.heap b).isSome
  counted : s.numNodes ≠ 0

section Place

variable {pr nx : Option ℕ}

theorem Linkit.Place.setNext_node (h : s.Place a pr nx d) (v : Option ℕ) :
    setNext s.heap pr v a = some ⟨pr, nx, d⟩ := by
  rw [setNext_of_ne, h.node]
  intro heq
  exact (h.prev a heq).1 rfl

theorem Linkit.Place.leaveElem_eq (h : s.Place a pr nx d) :
    leaveElem s (some a) = some (if s.currentElem = some a then nx else s.currentElem) := by
  rw [leaveElem, readNext_eq h.node]
  by_cases heq : s.currentElem = some a
  · simp [heq]
  · rw [if_neg (Ne.symm heq), if_neg heq]

/-- Both removals relink the neighbours of the node. -/
theorem Linkit.Place.elemUnlink_eq (h : s.Place a pr nx d) :
    elemUnlink s (some a) = some (setPrev (setNext s.heap pr nx) nx pr,
      if pr = none then nx else s.head, if nx = none then pr else s.tail) := by
  rw [elemUnlink, readNext_eq h.node, readPrev_eq h.node]
  have hnode := h.setNext_node nx
  cases pr with
  | none =>
    rw [if_pos (h.head.mpr rfl)]
    cases nx with
    | none => simp
    | some c => simp [writePrev_eq, (h.next c rfl).2]
  | some b =>
    have hhead : s.head ≠ some a := fun heq => by simpa using h.head.mp heq
    rw [if_neg hhead]
    simp only [Option.bind_eq_bind, Option.bind_some, writeNext_eq (h.prev b rfl).2,
      readNext_eq hnode, readPrev_eq hnode]
    cases nx with
    | none => simp
    | some c => simp [writePrev_eq, (h.next c rfl).2]

theorem Linkit.Place.dataUnlink_eq (h : s.Place a pr nx d) :
    dataUnlink s (some a) = elemUnlink s (some a) := by
  rw [h.elemUnlink_eq, dataUnlink]
  have hnode := h.setNext_node nx
  cases pr with
  | none =>
    have hhead := h.head.mpr rfl
    rw [if_pos hhead.symm, hhead, readNext_eq h.node]
    cases nx with
    | none => simp
    | some c => simp [writePrev_eq, (h.next c rfl).2]
  | some b =>
    have hhead : s.head ≠ some a := fun heq => by simpa using h.head.mp heq
    rw [if_neg (Ne.symm hhead), readNext_eq h.node, readPrev_eq h.node]
    simp only [Option.bind_eq_bind, Option.bind_some, writeNext_eq (h.prev b rfl).2,
      readNext_eq hnode, readPrev_eq hnode]
    cases nx with
    | none => simp [h.tail.mpr rfl]
    | some c =>
      have htail : s.tail ≠ some a := fun heq => by simpa using h.tail.mp heq
      simp [Ne.symm htail, writePrev_eq, (h.next c rfl).2]

theorem Linkit.Place.removeElem_eq (h : s.Place a pr nx d) :
    removeElem s (some a) = some (.success, s.unlinked a pr nx) := by
  rw [removeElem, if_neg (by simp), if_neg h.counted, h.leaveElem_eq, h.elemUnlink_eq]
  simp only [Option.bind_eq_bind, Option.bind_some]
  rw [release_eq (by simp [h.node])]
  rfl

theorem Linkit.Place.dataRemove_eq (h : s.Place a pr nx d) {fuel : ℕ} {data : ℤ}
    (hfound : firstFrom s.heap (fun d => data = d) fuel s.head = some (some a)) :
    dataRemove fuel s data = some (.success, s.unlinked a pr nx) := by
  have hnonempty : s.head ≠ none := by
    intro hnone
    rw [hnone] at hfound
    cases fuel <;> cases hfound
  rw [dataRemove, if_neg hnonempty, hfound]
  simp only [Option.bind_eq_bind, Option.bind_some]
  rw [if_neg (by simp), h.leaveElem_eq, h.dataUnlink_eq, h.elemUnlink_eq, Option.bind_some,
    Option.bind_some, release_eq (by simp [h.node])]
  rfl

end Place

theorem Linkit.Links.place (h : s.Links (xs ++ a :: ys)) :
    ∃ d, s.Place a xs.getLast? ys.head? d := by
  obtain ⟨d, hd⟩ := h.segment.node
  obtain ⟨hx, ha, hy⟩ : a ∉ xs ∧ a ∉ ys ∧ True := by
    have := (List.nodup_cons.mp (List.nodup_middle.mp h.nodup)).1
    simp only [List.mem_append, not_or] at this
    exact ⟨this.1, this.2, trivial⟩
  refine ⟨d, by simpa using hd, ?_, ?_, ?_, ?_, ?_⟩
  · rw [h.head]
    cases xs with
    | nil => simp
    | cons x xs =>
      have hxa : x ≠ a := fun heq => hx (heq ▸ List.mem_cons_self)
      simp [hxa]
  · rw [h.tail]
    cases hlast : ys.getLast? with
    | none =>
      obtain rfl := List.getLast?_eq_none_iff.mp hlast
      simp
    | some b =>
      have hb := List.mem_of_getLast? hlast
      have hba : b ≠ a := fun heq => ha (heq ▸ hb)
      have hne : ys ≠ [] := List.ne_nil_of_mem hb
      simp [List.getLast?_append, List.getLast?_cons, hlast, hba, hne]
  · intro b hb
    have hmem := List.mem_of_getLast? hb
    exact ⟨fun heq => hx (heq ▸ hmem), h.isSome (by simp [hmem])⟩
  · intro b hb
    have hmem := List.mem_of_head? hb
    exact ⟨fun heq => ha (heq ▸ hmem), h.isSome (by simp [hmem])⟩
  · intro h0
    simpa using h.numNodes_eq_zero.mp h0

theorem unlinked_heap {b : ℕ} (hb : b ≠ a) (pr nx : Option ℕ) :
    (s.unlinked a pr nx).heap b = setPrev (setNext s.heap pr nx) nx pr b :=
  Function.update_of_ne hb _ _

theorem Linkit.Links.unlinked (h : s.Links (xs ++ a :: ys)) :
    (s.unlinked a xs.getLast? ys.head?).Links (xs ++ ys) := by
  have hnodup := List.nodup_cons.mp (List.nodup_middle.mp h.nodup)
  have hx : a ∉ xs := fun hmem => hnodup.1 (by simp [hmem])
  have hy : a ∉ ys := fun hmem => hnodup.1 (by simp [hmem])
  have hdisjoint : ∀ b, b ∈ xs → b ∉ ys := by
    intro b hb hb'
    exact (List.nodup_append.mp hnodup.2).2.2 b hb b hb' rfl
  constructor
  · exact hnodup.2
  · apply h.segment.unlink h.nodup
    · intro b hb
      have hba : b ≠ a := fun heq => hx (heq ▸ hb)
      have hne : ys.head? ≠ some b := fun heq => hdisjoint b hb (List.mem_of_head? heq)
      rw [unlinked_heap hba, setPrev_of_ne hne, setNext, Option.or_none]
    · intro b hb
      have hba : b ≠ a := fun heq => hy (heq ▸ hb)
      have hne : xs.getLast? ≠ some b :=
        fun heq => hdisjoint b (List.mem_of_getLast? heq) hb
      rw [unlinked_heap hba, setPrev, setNext_of_ne hne, Option.or_none]
  · rw [Linkit.unlinked, h.head]
    cases xs <;> simp
  · rw [Linkit.unlinked, h.tail]
    cases ys <;> simp [List.getLast?_append, List.getLast?_cons]
  · rw [Linkit.unlinked, h.counted]
    simp only [List.length_append, List.length_cons]
    push_cast
    ring

theorem Linkit.ListOf.unlinked (h : s.ListOf (xs ++ a :: ys)) :
    (s.unlinked a xs.getLast? ys.head?).ListOf (xs ++ ys) := by
  obtain ⟨hnodup, hsegment, hhead, htail, hcounted⟩ := h.links.unlinked
  refine ⟨hnodup, hsegment, ?_, hhead, htail, hcounted, ?_⟩
  · intro b hb
    by_cases hba : b = a
    · simp [Linkit.unlinked, hba] at hb
    · rw [unlinked_heap hba] at hb
      have := h.live b (by simpa using hb)
      simp only [List.mem_append, List.mem_cons] at this ⊢
      tauto
  · intro b hb
    rw [Linkit.unlinked] at hb
    by_cases hcur : s.currentElem = some a
    · rw [if_pos hcur] at hb
      simp [List.mem_of_head? hb]
    · rw [if_neg hcur] at hb
      have hmem := h.cursor b hb
      have hba : b ≠ a := by
        rintro rfl
        exact hcur hb
      simp only [List.mem_append, List.mem_cons] at hmem ⊢
      tauto

/-- Following `next` from the head stops at the first node whose data meets the condition. -/
theorem firstFrom_eq {h : NodeHeap} (hs : NextChain h as none) (found : ℤ → Bool) {fuel : ℕ}
    (hfuel : as.length ≤ fuel) :
    firstFrom h found fuel as.head? = some (as.find? fun a => (h a).any fun n => found n.data) := by
  induction as generalizing fuel with
  | nil => cases fuel <;> rfl
  | cons a as ih =>
    obtain ⟨⟨p, d, hd⟩, hs⟩ := hs
    cases fuel with
    | zero => simp at hfuel
    | succ fuel =>
      rw [List.head?_cons, firstFrom, hd, Option.bind_some]
      by_cases hfound : found d
      · simp [hfound, hd]
      · rw [if_neg hfound, Option.or_none, ih hs (by simpa using hfuel)]
        simp [hfound, hd]

theorem Linkit.ListOf.unlinked_upTo (h : s.ListOf (xs ++ a :: ys)) :
    (s.unlinked a xs.getLast? ys.head?).ListUpTo (xs ++ a :: ys).length := by
  refine ⟨xs ++ ys, h.unlinked, ?_⟩
  simp only [List.length_append, List.length_cons]
  omega

theorem Linkit.ListOf.removeElem (h : s.ListOf as) (ha : a ∈ as) :
    ∃ s', LinkedList.removeElem s (some a) = some (.success, s') ∧ s'.ListUpTo as.length := by
  obtain ⟨xs, ys, rfl⟩ := List.append_of_mem ha
  obtain ⟨d, hd⟩ := h.links.place
  exact ⟨_, hd.removeElem_eq, h.unlinked_upTo⟩

theorem Linkit.ListOf.dataRemove (h : s.ListOf as) {fuel : ℕ} (hfuel : as.length ≤ fuel)
    (data : ℤ) :
    ∃ r s', LinkedList.dataRemove fuel s data = some (r, s') ∧ s'.ListUpTo as.length := by
  by_cases hnone : s.head = none
  · exact ⟨.failure, s, by rw [LinkedList.dataRemove, if_pos hnone], as, h, le_rfl⟩
  · have hfind := firstFrom_eq h.segment.nextChain (fun d => data = d) hfuel
    rw [← h.head] at hfind
    cases hf : as.find? fun a => (s.heap a).any fun n => decide (data = n.data) with
    | none =>
      rw [hf] at hfind
      refine ⟨.success, s, ?_, as, h, le_rfl⟩
      rw [LinkedList.dataRemove, if_neg hnone, hfind]
      rfl
    | some a =>
      rw [hf] at hfind
      obtain ⟨xs, ys, rfl⟩ := List.append_of_mem (List.mem_of_find?_eq_some hf)
      obtain ⟨d, hd⟩ := h.links.place
      exact ⟨.success, _, hd.dataRemove_eq hfind, h.unlinked_upTo⟩

/-! ### The cursor -/

theorem Linkit.ListOf.setCurrent (h : s.ListOf as) {c : Option ℕ}
    (hc : ∀ a, c = some a → a ∈ as) : Linkit.ListOf { s with currentElem := c } as :=
  ⟨h.nodup, h.segment, h.live, h.head, h.tail, h.counted, hc⟩

theorem Linkit.ListOf.neighbours (h : s.ListOf as) (ha : a ∈ as) :
    ∃ n, s.heap a = some n ∧ (∀ b, n.prev = some b → b ∈ as) ∧ ∀ b, n.next = some b → b ∈ as := by
  obtain ⟨xs, ys, rfl⟩ := List.append_of_mem ha
  obtain ⟨d, hd⟩ := h.segment.node
  refine ⟨_, hd, ?_, ?_⟩
  · intro b hb
    have := List.mem_of_getLast? (by simpa using hb : xs.getLast? = some b)
    simp [this]
  · intro b hb
    have := List.mem_of_head? (by simpa using hb : ys.head? = some b)
    simp [this]

theorem Linkit.ListOf.moveHead (h : s.ListOf as) : (LinkedList.moveHead s).ListOf as := by
  apply h.setCurrent
  intro a ha
  rw [h.head] at ha
  exact List.mem_of_head? ha

theorem Linkit.ListOf.moveTail (h : s.ListOf as) : (LinkedList.moveTail s).ListOf as := by
  apply h.setCurrent
  intro a ha
  rw [h.tail] at ha
  exact List.mem_of_getLast? ha

theorem Linkit.ListOf.moveNext (h : s.ListOf as) :
    ∃ s', LinkedList.moveNext s = some s' ∧ s'.ListOf as := by
  cases hcur : s.currentElem with
  | none => exact ⟨s, by simp [LinkedList.moveNext, hcur], h⟩
  | some a =>
    obtain ⟨n, hn, -, hnext⟩ := h.neighbours (h.cursor a hcur)
    cases hnx : n.next with
    | none => exact ⟨s, by simp [LinkedList.moveNext, hcur, readNext_eq hn, hnx], h⟩
    | some b =>
      refine ⟨_, by simp [LinkedList.moveNext, hcur, readNext_eq hn, hnx]; rfl, ?_⟩
      exact h.setCurrent fun c hc => hnext c (hnx.trans hc)

theorem Linkit.ListOf.movePrev (h : s.ListOf as) :
    ∃ s', LinkedList.movePrev s = some s' ∧ s'.ListOf as := by
  cases hcur : s.currentElem with
  | none => exact ⟨s, by simp [LinkedList.movePrev, hcur], h⟩
  | some a =>
    obtain ⟨n, hn, hprev, -⟩ := h.neighbours (h.cursor a hcur)
    cases hpr : n.prev with
    | none => exact ⟨s, by simp [LinkedList.movePrev, hcur, readPrev_eq hn, hpr], h⟩
    | some b =>
      refine ⟨_, by simp [LinkedList.movePrev, hcur, readPrev_eq hn, hpr]; rfl, ?_⟩
      exact h.setCurrent fun c hc => hprev c (hpr.trans hc)

theorem Linkit.ListOf.removeCurrent (h : s.ListOf as) :
    ∃ s', LinkedList.removeCurrent s = some s' ∧ s'.ListUpTo as.length := by
  cases hcur : s.currentElem with
  | none =>
    exact ⟨s, by simp [LinkedList.removeCurrent, LinkedList.removeElem, hcur], as, h, le_rfl⟩
  | some a =>
    obtain ⟨s', hs', hlist⟩ := h.removeElem (h.cursor a hcur)
    exact ⟨s', by simp [LinkedList.removeCurrent, hcur, hs'], hlist⟩

theorem Linkit.ListOf.removePrev (h : s.ListOf as) :
    ∃ s', LinkedList.removePrev s = some s' ∧ s'.ListUpTo as.length := by
  cases hcur : s.currentElem with
  | none => exact ⟨s, by simp [LinkedList.removePrev, hcur], as, h, le_rfl⟩
  | some a =>
    obtain ⟨n, hn, hprev, -⟩ := h.neighbours (h.cursor a hcur)
    cases hpr : n.prev with
    | none =>
      exact ⟨s, by simp [LinkedList.removePrev, hcur, readPrev_eq hn, hpr], as, h, le_rfl⟩
    | some b =>
      obtain ⟨s', hs', hlist⟩ := h.removeElem (hprev b hpr)
      exact ⟨s', by simp [LinkedList.removePrev, hcur, readPrev_eq hn, hpr, hs'], hlist⟩

theorem Linkit.ListOf.removeNext (h : s.ListOf as) :
    ∃ s', LinkedList.removeNext s = some s' ∧ s'.ListUpTo as.length := by
  cases hcur : s.currentElem with
  | none => exact ⟨s, by simp [LinkedList.removeNext, hcur], as, h, le_rfl⟩
  | some a =>
    obtain ⟨n, hn, -, hnext⟩ := h.neighbours (h.cursor a hcur)
    cases hnx : n.next with
    | none =>
      exact ⟨s, by simp [LinkedList.removeNext, hcur, readNext_eq hn, hnx], as, h, le_rfl⟩
    | some b =>
      obtain ⟨s', hs', hlist⟩ := h.removeElem (hnext b hnx)
      exact ⟨s', by simp [LinkedList.removeNext, hcur, readNext_eq hn, hnx, hs'], hlist⟩

/-- The list of the examples: 2, 1, 2 with the cursor on the node in the middle. -/
def threeNodes : Linkit where
  heap
    | 10 => some ⟨none, some 11, 2⟩
    | 11 => some ⟨some 10, some 12, 1⟩
    | 12 => some ⟨some 11, none, 2⟩
    | _ => none
  numNodes := 3
  head := some 10
  tail := some 12
  currentElem := some 11

theorem threeNodes_links : threeNodes.Links [10, 11, 12] :=
  ⟨by decide, ⟨⟨2, rfl⟩, ⟨1, rfl⟩, ⟨2, rfl⟩, trivial⟩, rfl, rfl, rfl⟩

end MorningProjects.LinkedList
