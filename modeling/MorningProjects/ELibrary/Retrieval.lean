import Mathlib.Tactic

/-! The numbers of `eLibrary_sharedTypes.h` that client and server agree on. -/
namespace MorningProjects.ELibrary

inductive RetrievalType where
  | invalid
  | createUser
  | browseBooks
  | browseUsers
  | browseTags
  | browseActivities
  | browseMsgs
  | readBook
  | collectBook
  | addBook
  | addBookDesp
  | addComment
  | addTag
  | addUser
  | addFriend
  | rmBook
  | rmTag
  | rmFriend
  | wowBook
  | buyBook
  | sendMsg
  | workerTerm
  | lastValue
  deriving DecidableEq, Repr

def RetrievalType.code : RetrievalType → UInt32
  | .invalid => 0
  | .createUser => 1
  | .browseBooks => 2
  | .browseUsers => 3
  | .browseTags => 4
  | .browseActivities => 5
  | .browseMsgs => 6
  | .readBook => 7
  | .collectBook => 8
  | .addBook => 9
  | .addBookDesp => 10
  | .addComment => 11
  | .addTag => 12
  | .addUser => 13
  | .addFriend => 14
  | .rmBook => 15
  | .rmTag => 16
  | .rmFriend => 17
  | .wowBook => 18
  | .buyBook => 19
  | .sendMsg => 20
  | .workerTerm => 99
  | .lastValue => 100

/-! ### Filters and sort orders -/

def elibraryFilter : UInt32 := 0xB0000000

def elibrarySort : UInt32 := 0xD0000000

def filterInvalid : UInt32 := elibraryFilter ||| 0xFFFFFFF
def filterByBookName : UInt32 := elibraryFilter ||| 0x1
def filterByTag : UInt32 := elibraryFilter ||| 0x2
def filterByUserName : UInt32 := elibraryFilter ||| 0x10
def filterByUserSelf : UInt32 := elibraryFilter ||| 0x20
def filterByUserFriendly : UInt32 := elibraryFilter ||| 0x40
def filterByCollected : UInt32 := elibraryFilter ||| 0x100
def filterByUploaded : UInt32 := elibraryFilter ||| 0x200
def filterByWowed : UInt32 := elibraryFilter ||| 0x400
def filterByBuyed : UInt32 := elibraryFilter ||| 0x800

def sortInvalid : UInt32 := elibrarySort ||| 0xFFFFFFF
def sortByTime : UInt32 := elibrarySort ||| 0x2

end MorningProjects.ELibrary
