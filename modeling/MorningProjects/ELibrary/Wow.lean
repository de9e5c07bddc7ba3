import MorningProjects.ELibrary.Books

/-!
# Wowing and buying books

`wowBook` and `buyBook` count first, then allocate and insert the record, and
then add to the activities of the user. They look at the name of the owner, and
not at who has done it before.
-/
namespace MorningProjects.ELibrary
open Library

def maxActyLength : ℕ := 70

/-- `ACTY_FILTER_TAG`, as far as `addUserActy` has texts for them. -/
inductive ActyFilter where
  | userCreate
  | addingBook
  | addingFrd
  | deletingBook
  | byWow
  | byBuy
  deriving DecidableEq, Repr

structure Acty where
  acty : CString
  timestamp : ℕ
  deriving DecidableEq

structure ActyServer where
  server : Server
  activity : ℕ → List Acty
  numActy : ℕ → UInt32

/-! ### Activities -/

namespace ActyText

def quote : Char := Char.ofNat 34

def space : CString := ⟨word [' '], by decide⟩
def joined : CString := ⟨word [' ', 'j', 'o', 'i', 'n', 'e', 'd', ' ', 'e', 'L', 'i', 'b', 'r',
  'a', 'r', 'y', '!'], by decide⟩
def added : CString := ⟨word [' ', 'a', 'd', 'd', 'e', 'd', ' ', quote], by decide⟩
def bang : CString := ⟨word [quote, '!'], by decide⟩
def conj : CString := ⟨word [' ', 'a', 'n', 'd', ' '], by decide⟩
def friendsNow : CString := ⟨word [' ', 'a', 'r', 'e', ' ', 'f', 'r', 'i', 'e', 'n', 'd', 's', ' ',
  'n', 'o', 'w', '!'], by decide⟩
def deleted : CString := ⟨word [' ', 'd', 'e', 'l', 'e', 't', 'e', 'd', ' ', quote], by decide⟩
def stop : CString := ⟨word [quote, '.'], by decide⟩
def addedWow : CString := ⟨word [' ', 'a', 'd', 'd', 'e', 'd', ' ', 'a', ' ', 'W', 'O', 'W', ' ',
  't', 'o', ' ', quote], by decide⟩
def addedBuy : CString := ⟨word [' ', 'a', 'd', 'd', 'e', 'd', ' ', 'a', ' ', 'B', 'U', 'Y', ' ',
  't', 'o', ' ', quote], by decide⟩

end ActyText

open ActyText in
/-- The text `snprintf` leaves in the buffer; `time` is the text of `myAscTimeLite`. -/
def actyText (filter : ActyFilter) (time username name : CString) : CString :=
  (CString.concat ([time, space, username] ++
    match filter with
    | .userCreate => [joined]
    | .addingBook => [added, name, bang]
    | .addingFrd => [conj, name, friendsNow]
    | .deletingBook => [deleted, name, stop]
    | .byWow => [addedWow, name, bang]
    | .byBuy => [addedBuy, name, bang])).strncpy (maxActyLength - 1)

/-- The clock and the answers of the two `malloc` calls during a call. -/
structure MarkInput where
  time : ℕ
  timeText : CString
  record : Bool
  acty : Bool

def addUserActy (s : ActyServer) (host : ℕ) (filter : ActyFilter) (name : CString)
    (input : MarkInput) : SystemStatus × ActyServer :=
  if input.acty then
    let acty := ⟨actyText filter input.timeText (s.server.user host).username name, input.time⟩
    (.ok, { s with
      activity := Function.update s.activity host (s.activity host ++ [acty])
      numActy := Function.update s.numActy host (s.numActy host + 1) })
  else (.fail, s)

/-! ### Wowing and buying -/

inductive Mark where
  | wow
  | buy
  deriving DecidableEq, Repr

namespace Mark

def num (info : BookInfo) : Mark → UInt32
  | .wow => info.numWow
  | .buy => info.numBuy

def who (info : BookInfo) : Mark → List NameDate
  | .wow => info.whoWowed
  | .buy => info.whoBuyed

def set (info : BookInfo) (num : UInt32) (who : List NameDate) : Mark → BookInfo
  | .wow => { info with numWow := num, whoWowed := who }
  | .buy => { info with numBuy := num, whoBuyed := who }

def filter : Mark → ActyFilter
  | .wow => .byWow
  | .buy => .byBuy

@[simp] theorem num_set (m : Mark) (info : BookInfo) (n : UInt32) (l : List NameDate) :
    m.num (m.set info n l) = n := by
  cases m <;> rfl

@[simp] theorem who_set (m : Mark) (info : BookInfo) (n : UInt32) (l : List NameDate) :
    m.who (m.set info n l) = l := by
  cases m <;> rfl

@[simp] theorem owner_set (m : Mark) (info : BookInfo) (n : UInt32) (l : List NameDate) :
    (m.set info n l).owner = info.owner := by
  cases m <;> rfl

theorem num_set_of_ne {m m' : Mark} (h : m' ≠ m) (info : BookInfo) (n : UInt32)
    (l : List NameDate) : m'.num (m.set info n l) = m'.num info := by
  cases m <;> cases m' <;> first | rfl | exact absurd rfl h

theorem who_set_of_ne {m m' : Mark} (h : m' ≠ m) (info : BookInfo) (n : UInt32)
    (l : List NameDate) : m'.who (m.set info n l) = m'.who info := by
  cases m <;> cases m' <;> first | rfl | exact absurd rfl h

end Mark

/-- The body that `wowBook` and `buyBook` share; no result when the book or its owner is NULL. -/
def markBook (m : Mark) (s : ActyServer) (host book : ℕ) (input : MarkInput) :
    Option (SystemStatus × ActyServer) := do
  let info ← s.server.book book
  let owner ← info.owner
  let username := (s.server.user host).username
  if (s.server.user owner).username.strncmp username username.strlen = 0 then
    return (.fail, s)
  else if input.record then
    let record : NameDate := ⟨username.strncpy username.strlen, 0⟩
    let info := m.set info (m.num info + 1) (record :: m.who info)
    return addUserActy { s with server := s.server.setBook book info } host m.filter info.name input
  else
    let info := m.set info (m.num info + 1) (m.who info)
    return (.fail, { s with server := s.server.setBook book info })

def wowBook : ActyServer → ℕ → ℕ → MarkInput → Option (SystemStatus × ActyServer) := markBook .wow

def buyBook : ActyServer → ℕ → ℕ → MarkInput → Option (SystemStatus × ActyServer) := markBook .buy

structure MarkCall where
  mark : Mark
  host : ℕ
  book : ℕ
  input : MarkInput

def markCall (s : ActyServer) (c : MarkCall) : Option (SystemStatus × ActyServer) :=
  match c.mark with
  | .wow => wowBook s c.host c.book c.input
  | .buy => buyBook s c.host c.book c.input

def markStep (s : ActyServer) (call : MarkCall) : Option ActyServer :=
  (markCall s call).map Prod.snd

end MorningProjects.ELibrary
