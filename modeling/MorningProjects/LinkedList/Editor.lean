import MorningProjects.Library.CursorList
import MorningProjects.LinkedList.Commands

/-!
# What the list demo is for

An editor of a list of numbers with a cursor, and a count of the elements that
the user is told. The count is the program's own: an element put beside the
cursor is not counted, and with a count of zero the list passes for empty, so an
insertion starts it anew. With another count a list that is empty has no head to
start from, and there the program fails.
-/
namespace MorningProjects.LinkedList
open Library

@[ext]
structure Editor where
  text : CursorList ℤ
  count : ℤ

namespace Editor

def start : Editor := ⟨.empty, 0⟩

/-- The editor after a command, if the program goes on, and what was printed. -/
abbrev Outcome := Option Editor × List Message

def Headless (e : Editor) : Prop := e.count ≠ 0 ∧ e.text.items = []

instance (e : Editor) : Decidable e.Headless :=
  inferInstanceAs (Decidable (_ ∧ _))

variable (e : Editor)

def moveTo (place : Option ℕ) : Editor := { e with text := e.text.setPlace place }

def insert (i : ℕ) (data : ℤ) (counted : ℤ) : Editor where
  text := if e.count = 0 then .single data else e.text.insertAt i data
  count := e.count + counted

def remove (i : ℕ) : Editor := ⟨e.text.removeAt i, e.count - 1⟩

/-- Commands on the element at a place next to the cursor. -/
def atNeighbour (place : Option ℕ) (atEnd : Message) (command : ℕ → Outcome) : Outcome :=
  if e.text.place = none then (some e, [.outOfBond])
  else place.elim (some e, [atEnd]) command

def removing (place : Option ℕ) : Outcome :=
  match place with
  | none => (some e, [.invalidElement, .removalFailed])
  | some i =>
    if e.count = 0 then (some e, [.noElements, .removalFailed]) else (some (e.remove i), [])

def adding (i : ℕ) (data : ℤ) (malloc : Option ℕ) : Option Outcome :=
  if malloc = none then some (none, [.insertAborted])
  else if e.Headless then none
  else some (some (e.insert i data 1), [])

/-- An insertion beside the cursor, which is not counted. -/
def addingBeside (side : ℕ) (data : ℤ) (malloc : Option ℕ) : Outcome :=
  match e.text.place with
  | none =>
    if e.count ≠ 0 then (none, [.invalidCurrent, .insertAborted])
    else if malloc = none then (none, [.insertAborted])
    else (some (e.insert 0 data 0), [.emptyList])
  | some i =>
    if malloc = none then (none, [.insertAborted])
    else (some (e.insert (i + side) data 0), if e.count = 0 then [.emptyList] else [])

def removingData (data : ℤ) : Outcome :=
  if e.text.items = [] then (none, [.nothingToRemove, .removeAborted])
  else if data ∈ e.text.items then
    (some (e.remove (e.text.items.idxOf data)), [.dataRemoved data])
  else (some e, [.dataNotFound])

def display : Option Message :=
  if e.count = 0 then some .listEmpty
  else if e.text.items = [] then none
  else some (.listDisplay e.text.items)

/-- With a count of zero nothing is freed. -/
def destroy : Option Editor :=
  if e.count = 0 then some ⟨e.text.setPlace none, 0⟩
  else if e.text.items = [] then none
  else some start

def order (isAscending : Bool) (a b : ℤ) : ℤ := if isAscending then a - b else b - a

def sorting (isAscending : Bool) : Option Outcome :=
  if e.count = 0 then some (some e, [.noSorting])
  else if e.text.items = [] then none
  else some (some { e with text := e.text.sort (order isAscending) }, [])

def whether (place : ℕ) : Message :=
  if e.text.items = [] then .nowhere else .answer (e.text.place = some place)

def command : Command → Option Outcome
  | .moveHead => some (some (e.moveTo (some 0)), [])
  | .moveTail => some (some (e.moveTo (some (e.text.items.length - 1))), [])
  | .movePrev => some (e.atNeighbour e.text.prev .atHead fun i => (some (e.moveTo (some i)), []))
  | .moveNext => some (e.atNeighbour e.text.next .atTail fun i => (some (e.moveTo (some i)), []))
  | .printCurrent =>
    some (some e, [e.text.current.elim .noCurrent .currentData])
  | .printPrev => some (e.atNeighbour e.text.prev .atHead fun i =>
    (some e, (e.text.items[i]?.map .previousData).toList))
  | .printNext => some (e.atNeighbour e.text.next .atTail fun i =>
    (some e, (e.text.items[i]?.map .nextData).toList))
  | .printAll => e.display.map fun message => (some e, [message])
  | .removeCurrent => some (e.removing e.text.place)
  | .removePrev => some (e.atNeighbour e.text.prev .atHead fun i => e.removing (some i))
  | .removeNext => some (e.atNeighbour e.text.next .atTail fun i => e.removing (some i))
  | .removeAll => e.destroy.map fun e' => (some e', [.listDestroyed])
  | .addHead data malloc => e.adding 0 data malloc
  | .addTail data malloc => e.adding e.text.items.length data malloc
  | .addPrev data malloc => some (e.addingBeside 0 data malloc)
  | .addNext data malloc => some (e.addingBeside 1 data malloc)
  | .sort isAscending => e.sorting isAscending
  | .isHead => some (some e, [e.whether 0])
  | .isTail => some (some e, [e.whether (e.text.items.length - 1)])
  | .count => some (some e, [.elements e.count])
  | .quit =>
    e.destroy.bind fun e' => e'.display.map fun message => (none, [.listDestroyed, message])
  | .dataRemove data => some (e.removingData data)

end Editor

def editorStep : Option Editor → Command → Option Editor.Outcome
  | none, _ => some (none, [])
  | some e, c => e.command c

end MorningProjects.LinkedList
