import MorningProjects.LinkedList.Linkit

/-!
# The command loop of the list demo

`main` reads one command after the other and prints what it finds; an insertion
that fails ends the program, and so does `q`, which destroys the list and
displays what is left.
-/
namespace MorningProjects.LinkedList
open Library

/-- What the demo prints in answer to a command. -/
inductive Message where
  /-- `Warn - Out of bond. Move to head/tail firstly.` -/
  | outOfBond
  /-- `Warn - You are at the head of list!` -/
  | atHead
  /-- `Warn - You are at the tail of list!` -/
  | atTail
  /-- `Warn - Invalid current element.` -/
  | noCurrent
  | currentData (data : ℤ)
  | previousData (data : ℤ)
  | nextData (data : ℤ)
  /-- `List empty - no elements will be printed.` -/
  | listEmpty
  | listDisplay (data : List ℤ)
  /-- `Error - Invalid element to remove.` -/
  | invalidElement
  /-- `Error - Empty list.` -/
  | noElements
  /-- `Error - Out of bond.` -/
  | removalFailed
  | listDestroyed
  /-- `Invalid current element.` -/
  | invalidCurrent
  /-- `Empty list.` -/
  | emptyList
  /-- `Error - failed to insert data into list. Aborted.` -/
  | insertAborted
  /-- `Empty list - no sorting will be done.` -/
  | noSorting
  /-- `Empty list!` -/
  | nowhere
  | answer (yes : Bool)
  | elements (numNodes : ℤ)
  /-- `Error - empty list.` -/
  | nothingToRemove
  /-- `Error - failed to remove data from list. Aborted.` -/
  | removeAborted
  /-- `Error - Data not found.` -/
  | dataNotFound
  | dataRemoved (data : ℤ)
  deriving DecidableEq

/-- The two letters that `main` switches on, with what follows of the input; `malloc` is what
the call in the insertion returns. `dataRemove` is asked for before the commands. -/
inductive Command where
  | moveHead
  | moveTail
  | movePrev
  | moveNext
  | printCurrent
  | printPrev
  | printNext
  | printAll
  | removeCurrent
  | removePrev
  | removeNext
  | removeAll
  | addHead (data : ℤ) (malloc : Option ℕ)
  | addTail (data : ℤ) (malloc : Option ℕ)
  | addPrev (data : ℤ) (malloc : Option ℕ)
  | addNext (data : ℤ) (malloc : Option ℕ)
  | sort (isAscending : Bool)
  | isHead
  | isTail
  | count
  | quit
  | dataRemove (data : ℤ)

def displayLoop : ℕ → NodeHeap → Option ℕ → Option (List ℤ)
  | 0, _, _ => none
  | n + 1, h, current => do
    let data ← readData h current
    let next ← readNext h current
    if next = none then return [data]
    else
      let rest ← displayLoop n h next
      return data :: rest

def listDisplay (fuel : ℕ) (s : Linkit) : Option Message :=
  if s.numNodes = 0 then some .listEmpty
  else (displayLoop fuel s.heap s.head).map .listDisplay

/-- The list after a command, if the program goes on, and what was printed. -/
abbrev Outcome := Option Linkit × List Message

def atNeighbour (s : Linkit) (read : NodeHeap → Option ℕ → Option (Option ℕ)) (atEnd : Message)
    (command : ℕ → Option Outcome) : Option Outcome :=
  if s.currentElem = none then some (some s, [.outOfBond])
  else (read s.heap s.currentElem).bind fun
    | none => some (some s, [atEnd])
    | some elem => command elem

def removing (s : Linkit) (elemToRemove : Option ℕ) : Option Outcome :=
  (removeElem s elemToRemove).map fun
    | (.success, s') => (some s', [])
    | (.failure, s') =>
      (some s', [if elemToRemove = none then .invalidElement else .noElements, .removalFailed])

/-- An insertion that printed `messages`; the program ends when it failed. -/
def adding (messages : List Message) : ExitStatus × Linkit → Outcome
  | (.success, s) => (some s, messages)
  | (.failure, _) => (none, messages ++ [.insertAborted])

def besideMessages (s : Linkit) (malloc : Option ℕ) : List Message :=
  if s.currentElem = none ∧ s.numNodes ≠ 0 then [.invalidCurrent]
  else if malloc ≠ none ∧ s.numNodes = 0 then [.emptyList]
  else []

def removingData (fuel : ℕ) (s : Linkit) (data : ℤ) : Option Outcome :=
  if s.head = none then some (none, [.nothingToRemove, .removeAborted])
  else do
    let current ← firstFrom s.heap (fun d => data = d) fuel s.head
    let (_, s') ← dataRemove fuel s data
    return (some s', [if current = none then .dataNotFound else .dataRemoved data])

/-- Is the current element the one at this end? -/
def whether (s : Linkit) (elem : Option ℕ) : Message :=
  if s.head = none ∨ s.tail = none then .nowhere else .answer (s.currentElem = elem)

def command (fuel : ℕ) (s : Linkit) : Command → Option Outcome
  | .moveHead => some (some (moveHead s), [])
  | .moveTail => some (some (moveTail s), [])
  | .movePrev => atNeighbour s readPrev .atHead fun a =>
    some (some { s with currentElem := some a }, [])
  | .moveNext => atNeighbour s readNext .atTail fun a =>
    some (some { s with currentElem := some a }, [])
  | .printCurrent =>
    if s.currentElem = none then some (some s, [.noCurrent])
    else (readData s.heap s.currentElem).map fun data => (some s, [.currentData data])
  | .printPrev => atNeighbour s readPrev .atHead fun a =>
    (readData s.heap (some a)).map fun data => (some s, [.previousData data])
  | .printNext => atNeighbour s readNext .atTail fun a =>
    (readData s.heap (some a)).map fun data => (some s, [.nextData data])
  | .printAll => (listDisplay fuel s).map fun message => (some s, [message])
  | .removeCurrent => removing s s.currentElem
  | .removePrev => atNeighbour s readPrev .atHead fun a => removing s (some a)
  | .removeNext => atNeighbour s readNext .atTail fun a => removing s (some a)
  | .removeAll => (listDestroy fuel s).map fun r => (some r.2, [.listDestroyed])
  | .addHead data malloc => (insertHead s data malloc).map (adding [])
  | .addTail data malloc => (insertTail s data malloc).map (adding [])
  | .addPrev data malloc => (insertPrev s data malloc).map (adding (besideMessages s malloc))
  | .addNext data malloc => (insertNext s data malloc).map (adding (besideMessages s malloc))
  | .sort isAscending => (listSort fuel s isAscending).map fun r =>
    (some r.2, if s.numNodes = 0 then [.noSorting] else [])
  | .isHead => some (some s, [whether s s.head])
  | .isTail => some (some s, [whether s s.tail])
  | .count => some (some s, [.elements s.numNodes])
  | .quit => do
    let (_, s') ← listDestroy fuel s
    let message ← listDisplay fuel s'
    return (none, [.listDestroyed, message])
  | .dataRemove data => removingData fuel s data

/-- One round of the loop; once `main` has returned nothing is printed. -/
def mainStep (fuel : ℕ) : Option Linkit → Command → Option Outcome
  | none, _ => some (none, [])
  | some s, c => command fuel s c

end MorningProjects.LinkedList
