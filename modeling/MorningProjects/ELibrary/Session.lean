import MorningProjects.ELibrary.Commands
import MorningProjects.ELibrary.Exchange

/-!
# The commands add, rm and search, and a session

The handlers work on the server with its activities. They hand `briefEx` a pointer only after
`add -f`, `add -d` and `add -g`, so that these are the only calls that tell of success: for a book
added or removed and a friend removed the reply is the one for an error, and for a search there is
none. A session mixes these commands with the others, with messages, and with new users.
-/
namespace MorningProjects.ELibrary
open Library

/-! ### Calls that record an activity -/

def SiteServer.withServer (s : SiteServer) (g : Server) : SiteServer :=
  { s with acties := { s.acties with server := g } }

/-- `addUser`; a new record has no activities. -/
def siteAddUser (layout : UserLayout) (s : SiteServer) (userName email : CString)
    (newUser : Option ℕ) (usernode : Bool) (input : MarkInput) :
    Option (SystemStatus × SiteServer) := do
  let found ← getUserInfo s.acties.server userName (some email)
  let (status, g) ←
    addUser layout s.acties.server userName email ⟨newUser, usernode, input.acty⟩
  match found, newUser with
  | none, some u =>
    let s : SiteServer :=
      { s with acties :=
        { server := g
          activity := Function.update s.acties.activity u []
          numActy := Function.update s.acties.numActy u 0 } }
    if usernode then return (status, siteStep s ⟨u, .userCreate, .empty, input⟩)
    else return (status, s)
  | _, _ => return (status, s.withServer g)

/-- `addFriend`; the first friend of a user is not told of. -/
def siteAddFriend (s : SiteServer) (host friend : ℕ) (newNode : Bool) (input : MarkInput) :
    Option (SystemStatus × SiteServer) := do
  let info := s.acties.server.user host
  let (status, g) ← addFriend s.acties.server host friend newNode
  if newNode ∧ info.numFrds ≠ 0 ∧ isFriend s.acties.server friend info.friends = false then
    let name := (s.acties.server.user friend).username
    return (status, siteStep (s.withServer g) ⟨host, .addingFrd, name, input⟩)
  else return (status, s.withServer g)

/-- `addBook` for an owner and a name; a new book is told of. -/
def siteAddBook (s : SiteServer) (owner : ℕ) (bookName : CString) (bookDesp : Option CString)
    (bookGroup : Option ℕ) (malloc : BookMallocs) (input : MarkInput) :
    Option (SystemStatus × SiteServer) := do
  let found ← getBookByName s.acties.server none bookName
  let (status, g) ←
    addBook s.acties.server (some owner) (some bookName) bookDesp bookGroup malloc
  if found = none ∧ malloc.bookAdded.isSome then
    return (status, siteStep (s.withServer g) ⟨owner, .addingBook, bookName, input⟩)
  else return (status, s.withServer g)

/-! ### The texts -/

/-- The events that `add` has a pointer for. -/
inductive AddEvt where
  | addFriend
  | addDesp
  | addGroup
  deriving DecidableEq, Repr

namespace Brief

def nowFriend : List UInt8 := word [' ', 'i', 's', ' ', 'n', 'o', 'w', ' ', 'y', 'o', 'u', 'r', ' ',
  'f', 'r', 'i', 'e', 'n', 'd', '.']
def despAdded : List UInt8 := word ['D', 'e', 's', 'c', 'r', 'i', 'p', 't', 'i', 'o', 'n', ' ', 'a',
  'd', 'd', 'e', 'd', ' ', 't', 'o', ' ', 'b', 'o', 'o', 'k', ' ']
def groupSet : List UInt8 := word ['G', 'r', 'o', 'u', 'p', ' ', 's', 'e', 't', ' ', 'f', 'o', 'r',
  ' ', 'b', 'o', 'o', 'k', ' ']

end Brief

open Brief in
def AddEvt.text (ptr : CString) : AddEvt → List UInt8
  | .addFriend => snprintf maxBriefLength [ptr.bytes, nowFriend]
  | .addDesp => snprintf maxBriefLength [despAdded, ptr.bytes, stop]
  | .addGroup => snprintf maxBriefLength [groupSet, ptr.bytes, stop]

def AddEvt.briefEx (malloc : Bool) (ptr : CString) (event : AddEvt) : Option (List UInt8) :=
  if malloc then some (event.text ptr) else none

/-- `briefEx` without a pointer: the text is that of an error, whatever the event. -/
def briefExNull (malloc : Bool) : Option (List UInt8) :=
  if malloc then some Brief.systemError else none

/-! ### The handlers -/

/-- The answers of `malloc` and the clock for `add`, and what `groupConverer`, which returns
nothing, leaves in `group`; `none` for `book_group_undef`. -/
structure AddInput where
  friendNode : Bool
  book : BookMallocs
  group : Option ℕ
  acty : MarkInput

/-- What the branches of a handler leave behind: whether the command is valid, the result, the
reply, and the server. -/
structure Outcome where
  cmdValid : Bool
  result : SystemStatus
  rtnMsg : Option (List UInt8)
  site : SiteServer

def Outcome.invalid (s : SiteServer) : Outcome := ⟨false, .ok, none, s⟩

def Outcome.failed (s : SiteServer) : Outcome := ⟨true, .fail, none, s⟩

def Outcome.finish (tail : Bool) (o : Outcome) : Answer :=
  let rtnMsg := if o.cmdValid = false then briefExNull tail else o.rtnMsg
  ⟨if o.result = .ok then rtnMsg else briefExNull tail, o.site⟩

section Handlers

variable (env : Surroundings) (s : SiteServer) (c : Command)

/-- The commands about a book: the reply is for `str`, if the event has a text of its own. -/
def addBookBranch (input : AddInput) (host : ℕ) (desp : Option CString) (group : Option ℕ)
    (rtnMsg : Option (List UInt8)) : Option Outcome := do
  let bookName ← c.params[0]?
  let (result, site) ← siteAddBook s host bookName desp group input.book input.acty
  return ⟨true, result, if result = .ok then rtnMsg else none, site⟩

/-- The branches of `eLibrary_SVR_input_Add` for a user who was found. -/
def addBranch (input : AddInput) (host : ℕ) : Option Outcome :=
  if c.IsOption 0 'f' then
    match c.params with
    | [] => some (.invalid s)
    | name :: _ => do
      match ← getUserInfo s.acties.server name none with
      | none => return .failed s
      | some friend =>
        let (result, site) ← siteAddFriend s host friend input.friendNode input.acty
        let rtnMsg := if result = .ok then AddEvt.addFriend.briefEx env.first name else none
        return ⟨true, result, rtnMsg, site⟩
  else if c.IsOption 0 'd' then
    match c.params with
    | _ :: desp :: _ =>
      addBookBranch s c input host (some desp) none (AddEvt.addDesp.briefEx env.first desp)
    | _ => some (.invalid s)
  else if c.IsOption 0 'g' then
    match c.params with
    | _ :: group :: _ =>
      addBookBranch s c input host none input.group (AddEvt.addGroup.briefEx env.first group)
    | _ => some (.invalid s)
  else if c.IsOption 0 'b' then
    -- the parameter is read even if there is none, and `str` is NULL
    addBookBranch s c input host none none (briefExNull env.first)
  else if c.IsOption 0 'h' then some ⟨true, .ok, briefExNull env.first, s⟩
  else some (.invalid s)

def inputAdd (input : AddInput) : Option Answer :=
  (if c.numOptions = 0 then some (Outcome.invalid s)
    else do
      match ← getUserInfo s.acties.server env.userName none with
      | none => return Outcome.failed s
      | some host => addBranch env s c input host).map (Outcome.finish env.tail)

def rmBranch (host : ℕ) (target : CString) : Option Outcome :=
  if c.IsOption 0 'b' then do
    let (result, g) ← rmBook s.acties.server (some host) (some target)
    return ⟨true, result, if result = .ok then briefExNull env.first else none, s.withServer g⟩
  else if c.IsOption 0 'f' then
    let (result, g) := rmFriend s.acties.server host target
    some ⟨true, result, if result = .ok then briefExNull env.first else none, s.withServer g⟩
  else if c.IsOption 0 'h' then some ⟨true, .ok, briefExNull env.first, s⟩
  else some (.invalid s)

def inputRm : Option Answer :=
  (match c.params with
    | [] => some (Outcome.invalid s)
    | target :: _ =>
      if c.numOptions = 0 then some (Outcome.invalid s)
      else do
        match ← getUserInfo s.acties.server env.userName none with
        | none => return Outcome.failed s
        | some host => rmBranch env s c host target).map (Outcome.finish env.tail)

/-- The branches of `eLibrary_SVR_input_Search`: what is found goes nowhere. -/
def searchBranch (target : CString) : Option Outcome :=
  if c.IsOption 0 'b' then do
    let (result, _) ← (getBookInfo s.acties.server env.bookList (some target)).result
    return ⟨true, result, none, s⟩
  else if c.IsOption 0 'f' then do
    let user ← getUserInfo s.acties.server target none
    return ⟨true, if user = none then .fail else .ok, none, s⟩
  else if c.IsOption 0 'h' then some ⟨true, .ok, briefExNull env.first, s⟩
  else some (.invalid s)

def inputSearch : Option Answer :=
  (match c.params with
    | [] => some (Outcome.invalid s)
    | target :: _ =>
      if c.numOptions = 0 then some (Outcome.invalid s)
      else searchBranch env s c target).map (Outcome.finish env.tail)

end Handlers

/-! ### Sessions -/

/-- A new user, a command of the user named in its surroundings, or the exchange thread on an
event. -/
inductive SessionCall where
  | addUser (userName email : CString) (newUser : Option ℕ) (usernode : Bool) (input : MarkInput)
  | add (env : Surroundings) (c : Command) (input : AddInput)
  | rm (env : Surroundings) (c : Command)
  | search (env : Surroundings) (c : Command)
  | whatsup (rounds : ℕ) (env : Surroundings) (c : Command)
  | wow (rounds : ℕ) (env : Surroundings) (c : Command)
  | buy (rounds : ℕ) (env : Surroundings) (c : Command)
  | msgSend (userName frdName msg : CString) (ready : Bool) (now : ℕ) (malloc : MsgMallocs)
      (notified : SystemStatus)
  | msgRead (userName : CString) (params : List CString) (malloc : Bool)
  | exchange (payload : List UInt8) (now : ℕ) (malloc : MsgMallocs)

/-- `eLibrary_SVR_input_Msg` for `msg -s`. -/
def inputMsgSend (g : Server) (userName frdName msg : CString) (ready : Bool) (now : ℕ)
    (malloc : MsgMallocs) (notified : SystemStatus) : Option Server := do
  match ← getUserInfo g userName none with
  | none => return g
  | some host =>
    let (_, g) ←
      sendReceiveMsg g host (some frdName) (some msg) .receiptOut ready now malloc notified
    return g

def sessionStep (layout : UserLayout) (s : SiteServer) : SessionCall → Option SiteServer
  | .addUser userName email newUser usernode input =>
    (siteAddUser layout s userName email newUser usernode input).map Prod.snd
  | .add env c input => (inputAdd env s c input).map Answer.site
  | .rm env c => (inputRm env s c).map Answer.site
  | .search env c => (inputSearch env s c).map Answer.site
  | .whatsup rounds env c => (inputWhatsup rounds env s c).result.map Answer.site
  | .wow rounds env c => (inputWow rounds env s c).result.map Answer.site
  | .buy rounds env c => (inputBuy rounds env s c).result.map Answer.site
  | .msgSend userName frdName msg ready now malloc notified =>
    (inputMsgSend s.acties.server userName frdName msg ready now malloc notified).map s.withServer
  | .msgRead userName params malloc =>
    (inputMsg s.acties.server userName params malloc).map fun r => s.withServer r.2
  | .exchange payload now malloc =>
    (exchangeMsg s.acties.server payload now malloc).map s.withServer

def SiteServer.init : SiteServer := ⟨.unused Server.init, .zero⟩

def SiteServer.Permits (s : SiteServer) : SessionCall → Prop
  | .addUser _ _ newUser _ _ => ∀ u, newUser = some u → u ∉ s.acties.server.userList
  | .add _ _ input => ∀ b, input.book.bookAdded = some b → s.acties.server.book b = none
  | _ => True

instance (s : SiteServer) : (call : SessionCall) → Decidable (s.Permits call)
  | .addUser _ _ newUser _ _ => inferInstanceAs (Decidable (∀ u ∈ newUser, _))
  | .add _ _ input => inferInstanceAs (Decidable (∀ b ∈ input.book.bookAdded, _))
  | .rm _ _ | .search _ _ | .whatsup _ _ _ | .wow _ _ _ | .buy _ _ _ | .msgSend _ _ _ _ _ _ _
  | .msgRead _ _ _ | .exchange _ _ _ => isTrue trivial

end MorningProjects.ELibrary
