import MorningProjects.Common.Status
import MorningProjects.Library.Counter
import MorningProjects.Library.Field
import Mathlib.Logic.Function.Basic

/-!
# The records of eLibrary and its user directory

Users and books are known by their addresses. Lists that only their own
functions touch are Lean lists, from head to last node. A call without a result
dereferences NULL or a freed record, writes past a field, or does not return.
-/
namespace MorningProjects.ELibrary
open Library

def maxNameLength : ℕ := 10
def maxBookNameLength : ℕ := 30
def maxMsgLength : ℕ := 30

inductive MsgDirection where
  | undef
  | receiptIn
  | receiptOut
  | lastvalue
  deriving DecidableEq, Repr

/-- `MSG_FORMAT`; its text field, `MAX_EMAIL_LENGTH` wide, has room for a message and a
terminator. -/
structure MsgFormat where
  io : MsgDirection
  unread : Bool
  datetime : ℕ
  msg : CString
  deriving DecidableEq

/-- `struct msgList`: the messages of one contact, the latest first. -/
structure MsgNode where
  contact : CString
  numMsg : UInt32
  numUnread : UInt32
  contexts : List MsgFormat
  deriving DecidableEq

structure MsgBox where
  numMsg : UInt32
  numUnread : UInt32
  msgs : List MsgNode
  deriving DecidableEq

/-- The fields of `USER_INFO` that the directory, friends, books and messages use. -/
structure UserInfo where
  username : CString
  email : CString
  friends : List ℕ
  numFrds : UInt32
  books : List ℕ
  numBooks : UInt32
  msgBox : MsgBox

/-- An entry of `struct nameDateList`, whose declaration is not at hand; its name has room for a
username. -/
structure NameDate where
  name : CString
  date : ℕ
  deriving DecidableEq

/-- `BOOK_INFO` without its description and group. -/
structure BookInfo where
  name : CString
  owner : Option ℕ
  numWow : UInt32
  whoWowed : List NameDate
  numBuy : UInt32
  whoBuyed : List NameDate
  countCollected : UInt32
  deriving DecidableEq

/-- `g_bookTotal`: the books from `head` on, and the book of the node `tail` points to. -/
structure BookTotal where
  head : List ℕ
  tail : Option ℕ
  numBooks : UInt32
  deriving DecidableEq

/-- The global state: user records, the directory in the order of creation, the book
records that are not freed, and the list of all books. -/
structure Server where
  user : ℕ → UserInfo
  userList : List ℕ
  book : ℕ → Option BookInfo
  bookTotal : BookTotal

def UserInfo.zero : UserInfo :=
  ⟨CString.empty, CString.empty, [], 0, [], 0, ⟨0, 0, []⟩⟩

def Server.init : Server :=
  ⟨fun _ => UserInfo.zero, [], fun _ => none, ⟨[], none, 0⟩⟩

def Server.setUser (g : Server) (u : ℕ) (info : UserInfo) : Server :=
  { g with user := Function.update g.user u info }

@[simp] theorem setUser_user_self (g : Server) (u : ℕ) (info : UserInfo) :
    (g.setUser u info).user u = info := Function.update_self ..

@[simp] theorem setUser_user_of_ne (g : Server) {u v : ℕ} (h : v ≠ u) (info : UserInfo) :
    (g.setUser u info).user v = g.user v := Function.update_of_ne h ..

@[simp] theorem setUser_userList (g : Server) (u : ℕ) (info : UserInfo) :
    (g.setUser u info).userList = g.userList := rfl

/-- The loop of `getUserInfo`. A user of the name with another email is looked at again
and again, since `continue` skips the step to the next node. -/
def getUserInfoFrom (g : Server) (username : CString) (email : Option CString) :
    List ℕ → Option (Option ℕ)
  | [] => some none
  | u :: us =>
    if (g.user u).username.strncmp username username.strlen = 0 then
      match email with
      | none => some (some u)
      | some e => if (g.user u).email.strncmp e e.strlen ≠ 0 then none else some (some u)
    else getUserInfoFrom g username email us

def getUserInfo (g : Server) (username : CString) (email : Option CString) :
    Option (Option ℕ) :=
  getUserInfoFrom g username email g.userList

/-- Without an email, the first user whose name starts with the name is found. -/
theorem getUserInfo_eq (g : Server) (username : CString) :
    getUserInfo g username none =
      some (g.userList.find? fun u => (g.user u).username.StartsWith username) := by
  rw [getUserInfo]
  induction g.userList with
  | nil => rfl
  | cons u us ih =>
    rw [getUserInfoFrom, ih, List.find?_cons]
    by_cases h : (g.user u).username.StartsWith username
    · simp [h]
    · simp [h]

/-- The answers of the three `malloc` calls of `addUser`, for the user, its node, and the
entry in its history. -/
structure UserMallocs where
  newUser : Option ℕ
  usernode : Bool
  acty : Bool

/-- What the declarations of `USER_INFO` and `MAX_EMAIL_LENGTH`, which are not at hand, have to
say: how wide the fields of a record are. Both have room for a terminator. -/
structure UserLayout where
  usernameLength : ℕ
  emailLength : ℕ
  maxEmailLength : ℕ
  username_room : maxNameLength < usernameLength
  email_room : maxEmailLength < emailLength

/-- The record of a new user, with the strings as they are read back from their fields. -/
def newUserInfo (layout : UserLayout) (userName email : CString) : UserInfo :=
  { UserInfo.zero with
    email := Field.readBack email layout.email_room
    username := Field.readBack userName layout.username_room }

@[simp] theorem newUserInfo_username (layout : UserLayout) (userName email : CString) :
    (newUserInfo layout userName email).username = userName.strncpy maxNameLength :=
  Field.readBack_eq userName layout.username_room

def addUser (layout : UserLayout) (g : Server) (userName email : CString) (malloc : UserMallocs) :
    Option (SystemStatus × Server) :=
  (getUserInfo g userName (some email)).map fun found =>
    match found with
    | some _ => (.fail, g)
    | none =>
      match malloc.newUser with
      | none => (.fail, g)
      | some u =>
        let g := g.setUser u (newUserInfo layout userName email)
        if malloc.usernode then
          (if malloc.acty then .ok else .fail, { g with userList := g.userList ++ [u] })
        else (.fail, g)

/-- `addUser` changes nothing, or writes the record of a name it did not find and lists it as the
last one or not at all. -/
theorem addUser_writes {layout : UserLayout} {g g' : Server} {userName email : CString}
    {malloc : UserMallocs} {status : SystemStatus}
    (h : addUser layout g userName email malloc = some (status, g')) :
    g' = g ∨ ∃ u, malloc.newUser = some u ∧ getUserInfo g userName (some email) = some none ∧
      (g' = g.setUser u (newUserInfo layout userName email) ∨
        g' = { g.setUser u (newUserInfo layout userName email) with
          userList := g.userList ++ [u] }) := by
  obtain ⟨found, hfound, h⟩ := Option.map_eq_some_iff.mp h
  cases found with
  | some v =>
    cases h
    exact .inl rfl
  | none =>
    cases hu : malloc.newUser with
    | none =>
      rw [hu] at h
      cases h
      exact .inl rfl
    | some u =>
      rw [hu] at h
      dsimp only at h
      by_cases hnode : malloc.usernode
      · rw [if_pos hnode] at h
        cases h
        exact .inr ⟨u, rfl, hfound, .inr rfl⟩
      · rw [if_neg hnode] at h
        cases h
        exact .inr ⟨u, rfl, hfound, .inl rfl⟩

theorem addUser_cases {layout : UserLayout} {g g' : Server} {userName email : CString}
    {malloc : UserMallocs} {status : SystemStatus}
    (h : addUser layout g userName email malloc = some (status, g')) :
    g' = g ∨ ∃ u, malloc.newUser = some u ∧ getUserInfo g userName (some email) = some none ∧
      (g'.userList = g.userList ∨ g'.userList = g.userList ++ [u]) ∧
      g'.user = Function.update g.user u (newUserInfo layout userName email) := by
  rcases addUser_writes h with rfl | ⟨u, hu, hfound, rfl | rfl⟩
  · exact .inl rfl
  · exact .inr ⟨u, hu, hfound, .inl rfl, rfl⟩
  · exact .inr ⟨u, hu, hfound, .inr rfl, rfl⟩

theorem addUser_library {layout : UserLayout} {g g' : Server} {userName email : CString}
    {malloc : UserMallocs} {status : SystemStatus}
    (h : addUser layout g userName email malloc = some (status, g')) :
    g'.book = g.book ∧ g'.bookTotal = g.bookTotal := by
  rcases addUser_writes h with rfl | ⟨u, -, -, rfl | rfl⟩
  · exact ⟨rfl, rfl⟩
  · exact ⟨rfl, rfl⟩
  · exact ⟨rfl, rfl⟩

def alex : CString := ⟨[65, 108, 101, 120], by decide⟩

def smallLayout : UserLayout := ⟨11, 31, 30, by decide, by decide⟩

end MorningProjects.ELibrary
