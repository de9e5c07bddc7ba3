import MorningProjects.Common.Status
import MorningProjects.ELibrary.Retrieval
import MorningProjects.Library.Field

/-!
# Composing a client request

`eLibrary_CLT_createRequest` goes by the command word, the option letters and
the number of parameters. Every branch sets the local retrieval type, may assign
the filter and the sort order, and may copy the first parameters; the retrieval
type of the request itself is assigned nowhere.
-/
namespace MorningProjects.ELibrary
open Library

def maxObjStrLength : ℕ := 32
def maxAttachedStrLength : ℕ := 99

structure Command where
  cmd : CString
  option : List UInt8
  params : List CString
  deriving DecidableEq

structure ClientRequest where
  retrievalType : UInt32
  filterId : UInt32
  sortId : UInt32
  objectStr : Field maxObjStrLength
  attachedStr : Field maxAttachedStrLength
  deriving DecidableEq

/-! ### The words -/

def view : CString := ⟨word ['v', 'i', 'e', 'w'], by decide⟩
def add : CString := ⟨word ['a', 'd', 'd'], by decide⟩
def rm : CString := ⟨word ['r', 'm'], by decide⟩
def search : CString := ⟨word ['s', 'e', 'a', 'r', 'c', 'h'], by decide⟩
def whatsup : CString := ⟨word ['w', 'h', 'a', 't', 's', 'u', 'p'], by decide⟩
def wow : CString := ⟨word ['w', 'o', 'w'], by decide⟩
def buy : CString := ⟨word ['b', 'u', 'y'], by decide⟩
def msg : CString := ⟨word ['m', 's', 'g'], by decide⟩

/-! ### The branches -/

/-- What is assigned to the filter and the sort order of the request, if anything. -/
structure Assignment where
  filterId : Option UInt32
  sortId : Option UInt32
  deriving DecidableEq

/-- An accepting branch: the local retrieval type, the assignments, and how many parameters
are copied, the first to `object_str` and the second to `attached_str`. -/
structure Branch where
  retrievalTypeId : RetrievalType
  assigned : Assignment
  copied : ℕ
  deriving DecidableEq

namespace Command

variable (c : Command)

def IsOption (i : ℕ) (letter : Char) : Prop := c.option[i]? = some letter.toUInt8

instance (i : ℕ) (letter : Char) : Decidable (c.IsOption i letter) :=
  inferInstanceAs (Decidable (c.option[i]? = some letter.toUInt8))

def numOptions : ℕ := c.option.length

def numParams : ℕ := c.params.length

def viewBranch : Option Branch :=
  if c.numOptions = 1 ∧ c.IsOption 0 'b' ∧ c.numParams = 0 then
    some ⟨.browseBooks, ⟨some (filterByUserSelf ||| filterByUploaded ||| filterByCollected),
      some sortByTime⟩, 0⟩
  else if c.numOptions = 1 ∧ c.IsOption 0 'b' ∧ c.numParams = 1 then
    some ⟨.browseBooks, ⟨some filterByBookName, some sortInvalid⟩, 1⟩
  else if c.numOptions = 1 ∧ c.IsOption 0 'f' ∧ c.numParams = 0 then
    some ⟨.browseUsers, ⟨some filterByUserSelf, some sortByTime⟩, 0⟩
  else if c.numOptions = 1 ∧ c.IsOption 0 'f' ∧ c.numParams = 1 then
    some ⟨.browseUsers, ⟨some filterByUserName, some sortInvalid⟩, 1⟩
  else if c.numOptions = 2 ∧ c.IsOption 0 'b' then
    if c.IsOption 1 'c' ∧ c.numParams = 0 then
      some ⟨.browseBooks, ⟨some (filterByUserSelf ||| filterByCollected), some sortByTime⟩, 0⟩
    else if c.IsOption 1 't' ∧ c.numParams = 1 then
      some ⟨.browseBooks, ⟨some (filterByUserSelf ||| filterByTag ||| filterByUploaded |||
        filterByCollected), some sortByTime⟩, 1⟩
    else if c.IsOption 1 'u' ∧ c.numParams = 0 then
      some ⟨.browseBooks, ⟨some (filterByUserSelf ||| filterByUploaded), some sortByTime⟩, 0⟩
    else none
  else if c.numOptions = 2 ∧ c.IsOption 0 'f' then
    if c.IsOption 1 'b' ∧ c.numParams = 1 then
      some ⟨.browseBooks, ⟨some (filterByUploaded ||| filterByUserFriendly), some sortByTime⟩, 1⟩
    else if c.IsOption 1 'f' ∧ c.numParams = 1 then
      some ⟨.browseUsers, ⟨some (filterByUserName ||| filterByUserFriendly), some sortByTime⟩, 1⟩
    else none
  else none

def addBranch : Option Branch :=
  if c.numOptions = 1 ∧ c.IsOption 0 'b' ∧ c.numParams = 1 then some ⟨.addBook, ⟨none, none⟩, 1⟩
  else if c.numOptions = 1 ∧ c.IsOption 0 'd' ∧ c.numParams = 2 then
    some ⟨.addBookDesp, ⟨none, none⟩, 2⟩
  else if c.numOptions = 1 ∧ c.IsOption 0 't' ∧ c.numParams = 2 then
    some ⟨.addTag, ⟨none, none⟩, 2⟩
  else if c.numOptions = 1 ∧ c.IsOption 0 'c' ∧ c.numParams = 2 then
    some ⟨.addComment, ⟨none, none⟩, 2⟩
  else if c.numOptions = 1 ∧ c.IsOption 0 'f' ∧ c.numParams = 1 then
    some ⟨.addFriend, ⟨none, none⟩, 1⟩
  else none

def rmBranch : Option Branch :=
  if c.IsOption 0 'b' ∧ c.numParams = 1 then
    some ⟨.rmBook, ⟨some filterByBookName, some sortInvalid⟩, 1⟩
  else if c.IsOption 0 't' ∧ c.numParams = 2 then
    some ⟨.rmTag, ⟨some filterByTag, some sortInvalid⟩, 1⟩
  else if c.IsOption 0 'f' ∧ c.numParams = 1 then
    some ⟨.rmFriend, ⟨some filterByUserName, some sortInvalid⟩, 1⟩
  else none

def searchBranch : Option Branch :=
  if c.IsOption 0 'b' ∧ c.numParams = 1 then
    some ⟨.browseBooks, ⟨some filterByBookName, some sortInvalid⟩, 1⟩
  else if c.IsOption 0 't' ∧ c.numParams = 2 then
    some ⟨.browseBooks, ⟨some filterByTag, some sortByTime⟩, 1⟩
  else if c.IsOption 0 'f' ∧ c.numParams = 1 then
    some ⟨.browseUsers, ⟨some filterByUserName, some sortInvalid⟩, 1⟩
  else none

/-- The first test reads the number of parameters twice and no number of options. -/
def whatsupBranch : Option Branch :=
  if c.numParams = 0 ∧ c.numParams = 0 then
    some ⟨.browseActivities, ⟨some (filterByUserSelf ||| filterByUserFriendly), none⟩, 0⟩
  else if c.numOptions = 1 ∧ c.IsOption 0 'm' ∧ c.numParams = 0 then
    some ⟨.browseActivities, ⟨some filterByUserSelf, none⟩, 0⟩
  else if c.numOptions = 1 ∧ c.IsOption 0 'f' ∧ c.numParams = 1 then
    some ⟨.browseActivities, ⟨some (filterByUserName ||| filterByUserFriendly), none⟩, 1⟩
  else none

/-- The branches of `wow` and `buy`, with the filter and the retrieval type of the word. -/
def wowBuyBranch (filter : UInt32) (retrievalType : RetrievalType) : Option Branch :=
  if c.numParams = 0 ∧ c.numParams = 0 then
    some ⟨.browseBooks, ⟨some (filterByUserSelf ||| filter), some sortByTime⟩, 0⟩
  else if c.numOptions = 0 ∧ c.numParams = 1 then
    some ⟨retrievalType, ⟨some filterByBookName, some sortInvalid⟩, 0⟩
  else if c.numOptions = 1 ∧ c.IsOption 0 'f' ∧ c.numParams = 1 then
    some ⟨.browseBooks, ⟨some (filterByUserName ||| filter ||| filterByUserFriendly), none⟩, 1⟩
  else none

def wowBranch : Option Branch := c.wowBuyBranch filterByWowed .wowBook

def buyBranch : Option Branch := c.wowBuyBranch filterByBuyed .buyBook

def msgBranch : Option Branch :=
  if c.numParams = 0 ∧ c.numParams = 0 then
    some ⟨.browseMsgs, ⟨some filterInvalid, some sortByTime⟩, 0⟩
  else if c.numOptions = 1 ∧ c.IsOption 0 'f' ∧ c.numParams = 1 then
    some ⟨.browseMsgs, ⟨some filterByUserName, some sortByTime⟩, 0⟩
  else if c.numOptions = 0 ∧ c.numParams = 2 then
    some ⟨.sendMsg, ⟨some filterByUserName, some sortInvalid⟩, 0⟩
  else none

/-- The command word: what is assigned before the options are looked at, and the branch. -/
def dispatch : Assignment × Option Branch :=
  if c.cmd.strcmp view = 0 then (⟨none, none⟩, c.viewBranch)
  else if c.cmd.strcmp add = 0 ∧ 0 < c.numParams then
    (⟨some filterInvalid, some sortInvalid⟩, c.addBranch)
  else if c.cmd.strcmp rm = 0 ∧ c.numOptions = 1 then (⟨none, none⟩, c.rmBranch)
  else if c.cmd.strcmp search = 0 ∧ c.numOptions = 1 then (⟨none, none⟩, c.searchBranch)
  else if c.cmd.strcmp whatsup = 0 then (⟨none, some sortByTime⟩, c.whatsupBranch)
  else if c.cmd.strcmp wow = 0 then (⟨none, none⟩, c.wowBranch)
  else if c.cmd.strcmp buy = 0 then (⟨none, none⟩, c.buyBranch)
  else if c.cmd.strcmp msg = 0 then (⟨none, none⟩, c.msgBranch)
  else (⟨none, none⟩, none)

end Command

/-- The `strcpy` of a parameter into a field, in the branches that have it. -/
def copyParam {n : ℕ} (f : Field n) (copies : Prop) [Decidable copies]
    (param : Option CString) : Option (Field n) :=
  if copies then param.bind f.strcpy else some f

namespace ClientRequest

def assign (r : ClientRequest) (a : Assignment) : ClientRequest :=
  { r with filterId := a.filterId.getD r.filterId, sortId := a.sortId.getD r.sortId }

/-- The `strcpy` calls of a branch; no result when a parameter does not fit its field. -/
def copy (r : ClientRequest) (params : List CString) (copied : ℕ) : Option ClientRequest := do
  let objectStr ← copyParam r.objectStr (0 < copied) params[0]?
  let attachedStr ← copyParam r.attachedStr (1 < copied) params[1]?
  return { r with objectStr := objectStr, attachedStr := attachedStr }

end ClientRequest

/-- `eLibrary_CLT_createRequest` on a command line that parses to this command, if it does;
no result when a parameter overflows its field. -/
def createRequest (parsed : Option Command) (r : ClientRequest) :
    Option (SystemStatus × ClientRequest) :=
  match parsed with
  | none => some (.invalidParam, r)
  | some c =>
    match c.dispatch with
    | (assigned, none) => some (.invalidParam, r.assign assigned)
    | (assigned, some b) =>
      (((r.assign assigned).assign b.assigned).copy c.params b.copied).map fun r => (.ok, r)

end MorningProjects.ELibrary
