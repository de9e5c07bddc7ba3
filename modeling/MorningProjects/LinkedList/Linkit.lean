import MorningProjects.Common.Status
import MorningProjects.Library.Linked

/-!
# The doubly linked list demo

`g_list` and `g_current_elem` with the heap of list nodes. A call has no result
when it reads or writes through NULL or a freed node, or when one of its loops
does not end within `fuel` iterations.
-/
namespace MorningProjects.LinkedList
open Library

abbrev NodeHeap := LinkHeap ℕ ℤ

/-- `g_list`, `g_current_elem` and the nodes `malloc` returned that are not freed. -/
structure Linkit where
  heap : NodeHeap
  numNodes : ℤ
  head : Option ℕ
  tail : Option ℕ
  currentElem : Option ℕ

def listInit : Linkit := ⟨fun _ => none, 0, none, none, none⟩

def newNode (h : NodeHeap) (a : ℕ) (data : ℤ) : NodeHeap :=
  fun b => if b = a then some ⟨none, none, data⟩ else h b

def insertNext (s : Linkit) (data : ℤ) (malloc : Option ℕ) : Option (ExitStatus × Linkit) :=
  if s.currentElem = none ∧ s.numNodes ≠ 0 then some (.failure, s)
  else
    match malloc with
    | none => some (.failure, s)
    | some a =>
      let heap := newNode s.heap a data
      if s.numNodes = 0 then
        some (.success, { s with
          heap := heap, head := some a, tail := some a, currentElem := some a })
      else do
        let heap ← writePrev heap (some a) s.currentElem
        let next ← readNext heap s.currentElem
        let heap ← writeNext heap (some a) next
        let heap ← writeNext heap s.currentElem (some a)
        if s.currentElem = s.tail then
          return (.success, { s with heap := heap, tail := some a })
        else
          let next ← readNext heap (some a)
          let heap ← writePrev heap next (some a)
          return (.success, { s with heap := heap })

def insertPrev (s : Linkit) (data : ℤ) (malloc : Option ℕ) : Option (ExitStatus × Linkit) :=
  if s.currentElem = none ∧ s.numNodes ≠ 0 then some (.failure, s)
  else
    match malloc with
    | none => some (.failure, s)
    | some a =>
      let heap := newNode s.heap a data
      if s.numNodes = 0 then
        some (.success, { s with
          heap := heap, head := some a, tail := some a, currentElem := some a })
      else do
        let heap ← writeNext heap (some a) s.currentElem
        let prev ← readPrev heap s.currentElem
        let heap ← writePrev heap (some a) prev
        let heap ← writePrev heap s.currentElem (some a)
        if s.currentElem = s.head then
          return (.success, { s with heap := heap, head := some a })
        else
          let prev ← readPrev heap (some a)
          let heap ← writeNext heap prev (some a)
          return (.success, { s with heap := heap })

def insertHead (s : Linkit) (data : ℤ) (malloc : Option ℕ) : Option (ExitStatus × Linkit) :=
  match malloc with
  | none => some (.failure, s)
  | some a => do
    let heap := newNode s.heap a data
    if s.numNodes = 0 then
      let heap ← writeNext heap (some a) none
      let heap ← writePrev heap (some a) none
      return (.success, ⟨heap, s.numNodes + 1, some a, some a, some a⟩)
    else
      let heap ← writeNext heap (some a) s.head
      let next ← readNext heap (some a)
      let heap ← writePrev heap next (some a)
      let heap ← writePrev heap (some a) none
      return (.success, ⟨heap, s.numNodes + 1, some a, s.tail, s.currentElem⟩)

def insertTail (s : Linkit) (data : ℤ) (malloc : Option ℕ) : Option (ExitStatus × Linkit) :=
  match malloc with
  | none => some (.failure, s)
  | some a => do
    let heap := newNode s.heap a data
    if s.numNodes = 0 then
      let heap ← writePrev heap (some a) none
      let heap ← writeNext heap (some a) none
      return (.success, ⟨heap, s.numNodes + 1, some a, some a, some a⟩)
    else
      let heap ← writePrev heap (some a) s.tail
      let prev ← readPrev heap (some a)
      let heap ← writeNext heap prev (some a)
      let heap ← writeNext heap (some a) none
      return (.success, ⟨heap, s.numNodes + 1, s.head, some a, s.currentElem⟩)

/-- The loops of `data_remove` and `list_sort` that follow `next` to the first node
whose data meets a condition, or to NULL. -/
def firstFrom (h : NodeHeap) (found : ℤ → Bool) : ℕ → Option ℕ → Option (Option ℕ)
  | _, none => some none
  | 0, some _ => none
  | fuel + 1, some a =>
    (h a).bind fun n => if found n.data then some (some a) else firstFrom h found fuel n.next

/-- The cursor moves on when it stands on the node to remove. -/
def leaveElem (s : Linkit) (elemToRemove : Option ℕ) : Option (Option ℕ) :=
  if elemToRemove = s.currentElem then readNext s.heap elemToRemove else some s.currentElem

/-- The heap, head and tail once `data_remove` has unlinked `current`. -/
def dataUnlink (s : Linkit) (current : Option ℕ) :
    Option (NodeHeap × Option ℕ × Option ℕ) :=
  if current = s.head then do
    let head ← readNext s.heap s.head
    if head = none then return (s.heap, head, none)
    else
      let heap ← writePrev s.heap head none
      return (heap, head, s.tail)
  else do
    let prev ← readPrev s.heap current
    let next ← readNext s.heap current
    let heap ← writeNext s.heap prev next
    let prev ← readPrev heap current
    if current = s.tail then return (heap, s.head, prev)
    else
      let next ← readNext heap current
      let heap ← writePrev heap next prev
      return (heap, s.head, s.tail)

def dataRemove (fuel : ℕ) (s : Linkit) (data : ℤ) : Option (ExitStatus × Linkit) :=
  if s.head = none then some (.failure, s)
  else do
    let current ← firstFrom s.heap (fun d => data = d) fuel s.head
    if current = none then return (.success, s)
    else
      let currentElem ← leaveElem s current
      let (heap, head, tail) ← dataUnlink s current
      let heap ← release heap current
      return (.success, ⟨heap, s.numNodes - 1, head, tail, currentElem⟩)

/-- The heap, head and tail once `remove_elem` has unlinked its argument. -/
def elemUnlink (s : Linkit) (elemToRemove : Option ℕ) :
    Option (NodeHeap × Option ℕ × Option ℕ) :=
  if s.head = elemToRemove then do
    let next ← readNext s.heap elemToRemove
    if next = none then return (s.heap, next, none)
    else
      let heap ← writePrev s.heap next none
      return (heap, next, s.tail)
  else do
    let prev ← readPrev s.heap elemToRemove
    let next ← readNext s.heap elemToRemove
    let heap ← writeNext s.heap prev next
    let next ← readNext heap elemToRemove
    let prev ← readPrev heap elemToRemove
    if next = none then return (heap, s.head, prev)
    else
      let heap ← writePrev heap next prev
      return (heap, s.head, s.tail)

def removeElem (s : Linkit) (elemToRemove : Option ℕ) : Option (ExitStatus × Linkit) :=
  if elemToRemove = none then some (.failure, s)
  else if s.numNodes = 0 then some (.failure, s)
  else do
    let currentElem ← leaveElem s elemToRemove
    let (heap, head, tail) ← elemUnlink s elemToRemove
    let heap ← release heap elemToRemove
    return (.success, ⟨heap, s.numNodes - 1, head, tail, currentElem⟩)

/-- The order `list_sort` stops its inner loop by. -/
def sortCondition (isAscending : Bool) (toMove : ℤ) (current : ℤ) : Bool :=
  if isAscending then current > toMove else current < toMove

/-- `temp_head`, `temp_tail` and the heap while `list_sort` moves nodes. -/
structure Sorting where
  heap : NodeHeap
  tempHead : Option ℕ
  tempTail : Option ℕ

/-- The body of the outer loop of `list_sort` after `node_to_move` left the list. -/
def sortMove (fuel : ℕ) (isAscending : Bool) (t : Sorting) (nodeToMove : Option ℕ) :
    Option Sorting :=
  if t.tempHead = none then do
    let heap ← writePrev t.heap nodeToMove none
    let heap ← writeNext heap nodeToMove none
    return ⟨heap, nodeToMove, nodeToMove⟩
  else do
    let data ← readData t.heap nodeToMove
    let current ← firstFrom t.heap (sortCondition isAscending data) fuel t.tempHead
    if current = none then
      let heap ← writePrev t.heap nodeToMove t.tempTail
      let heap ← writeNext heap nodeToMove none
      let heap ← writeNext heap t.tempTail nodeToMove
      return ⟨heap, t.tempHead, nodeToMove⟩
    else
      let heap ← writeNext t.heap nodeToMove current
      let prev ← readPrev heap current
      let heap ← writePrev heap nodeToMove prev
      if current = t.tempHead then
        let heap ← writePrev heap current nodeToMove
        return ⟨heap, nodeToMove, t.tempTail⟩
      else
        let prev ← readPrev heap current
        let heap ← writeNext heap prev nodeToMove
        let heap ← writePrev heap current nodeToMove
        return ⟨heap, t.tempHead, t.tempTail⟩

def sortLoop (fuel : ℕ) (isAscending : Bool) : ℕ → Sorting → Option ℕ → Option Sorting
  | 0, _, _ => none
  | n + 1, t, nodeToMove => do
    let head ← readNext t.heap nodeToMove
    let t ← sortMove fuel isAscending t nodeToMove
    if head = none then return t else sortLoop fuel isAscending n t head

def listSort (fuel : ℕ) (s : Linkit) (isAscending : Bool) : Option (ExitStatus × Linkit) :=
  if s.numNodes = 0 then some (.success, s)
  else do
    let t ← sortLoop fuel isAscending fuel ⟨s.heap, none, none⟩ s.head
    return (.success, ⟨t.heap, s.numNodes, t.tempHead, t.tempTail, s.currentElem⟩)

/-- The loop of `list_destroy`: the heap after it. -/
def destroyLoop : ℕ → NodeHeap → Option ℕ → Option NodeHeap
  | 0, _, _ => none
  | n + 1, h, current => do
    let head ← readNext h current
    let h ← release h current
    if head = none then return h else destroyLoop n h head

/-- `list_destroy` leaves `g_list.tail` as it is. -/
def listDestroy (fuel : ℕ) (s : Linkit) : Option (ExitStatus × Linkit) :=
  if s.numNodes = 0 then some (.success, { s with numNodes := 0, currentElem := none })
  else do
    let heap ← destroyLoop fuel s.heap s.head
    return (.success, ⟨heap, 0, none, s.tail, none⟩)

/-! ### The cursor moves of the command loop -/

def moveHead (s : Linkit) : Linkit := { s with currentElem := s.head }

def moveTail (s : Linkit) : Linkit := { s with currentElem := s.tail }

def moveNext (s : Linkit) : Option Linkit :=
  if s.currentElem = none then some s
  else do
    let next ← readNext s.heap s.currentElem
    return if next = none then s else { s with currentElem := next }

def movePrev (s : Linkit) : Option Linkit :=
  if s.currentElem = none then some s
  else do
    let prev ← readPrev s.heap s.currentElem
    return if prev = none then s else { s with currentElem := prev }

def removeCurrent (s : Linkit) : Option Linkit :=
  (removeElem s s.currentElem).map Prod.snd

def removePrev (s : Linkit) : Option Linkit :=
  if s.currentElem = none then some s
  else do
    let prev ← readPrev s.heap s.currentElem
    if prev = none then return s else (removeElem s prev).map Prod.snd

def removeNext (s : Linkit) : Option Linkit :=
  if s.currentElem = none then some s
  else do
    let next ← readNext s.heap s.currentElem
    if next = none then return s else (removeElem s next).map Prod.snd

end MorningProjects.LinkedList
