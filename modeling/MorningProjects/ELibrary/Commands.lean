import MorningProjects.ELibrary.Briefs
import MorningProjects.ELibrary.Lookup
import MorningProjects.ELibrary.Merge
import MorningProjects.ELibrary.Request
import MorningProjects.Library.Traced

/-!
# The commands whatsup, wow and buy

The handlers look up users, friends and books by name, run an operation, and choose the
reply in a tail that all three have in common. The tail takes a status of success for an
error, and a handler that has its reply already loses it there.
-/
namespace MorningProjects.ELibrary
open Library

/-! ### The texts -/

inductive BriefEvt where
  | hlpWhatsup
  | hlpWow
  | hlpBuy
  | wowBook
  | buyBook
  | errCmdInvalid
  | errGeneral
  deriving DecidableEq, Repr

namespace Brief

def usage : List UInt8 := word ['U', 's', 'a', 'g', 'e', ':', ' ']
def whatsupUsage : List UInt8 := word ("whatsup [option] [target]\n" ++
  "\t\t\t\t                List recent activities. Without any options or parameters it shows " ++
  "activities of all the current user's and his friends'.\n\n" ++
  "\t\t\t\t                -f\t\tlist recent activities of a friend.\n" ++
  "\t\t\t\t\t\t\t\t@eLibrary 2012").toList
def wowUsage : List UInt8 := word ("wow [option] [target]\n" ++
  "\t\t\t\t                Add a WOW tag to a book or view who WOWed this book. \n" ++
  "\t\t\t\t                Without any options or parameter it shows books WOWed recently.\n" ++
  "\t\t\t\t                \"wow target\", shall add a WOW tag to this book. \n" ++
  "\t\t\t\t                -f\t\tview the recently WOWed books by a friend.\n" ++
  "\t\t\t\t                -b\t\tview the WOWed history of a book\n" ++
  "\t\t\t\t                @eLibrary 2012").toList
def buyUsage : List UInt8 := word ("buy [option] [target]\n" ++
  "\t\t\t\t                Add a BUY tag to a book or view who BUYed this book. \n" ++
  "\t\t\t\t                Without any options or parameter it shows books BUYed recently.\n" ++
  "\t\t\t\t                \"buy target\", shall add a BUY tag to this book. \n" ++
  "\t\t\t\t                -f\t\tview the recently BUYed books by a friend.\n" ++
  "\t\t\t\t                -b\t\tview the BUYed history of a book\n" ++
  "\t\t\t\t                @eLibrary 2012").toList
def tagAdded : List UInt8 := word [' ', 't', 'a', 'g', ' ', 'a', 'd', 'd', 'e', 'd', ' ', 't', 'o',
  ' ', 'b', 'o', 'o', 'k', ' ']
def stop : List UInt8 := word ['.']
def invalidCommand : List UInt8 := word ['I', 'n', 'v', 'a', 'l', 'i', 'd', ' ', 'c', 'o', 'm', 'm',
  'a', 'n', 'd', '.', ' ', 'A', 'd', 'd', ' ', '-', 'h', ' ', 'f', 'o', 'r', ' ', 'u', 's', 'e',
  't', 'a', 'g', 'e', '.', newline]

end Brief

open Brief in
/-- The text for an event; `ptr` is a name. -/
def BriefEvt.text (ptr : CString) : BriefEvt → List UInt8
  | .hlpWhatsup => snprintf maxBriefLength [usage, whatsupUsage]
  | .hlpWow => snprintf maxBriefLength [usage, wowUsage]
  | .hlpBuy => snprintf maxBriefLength [usage, buyUsage]
  | .wowBook => snprintf maxBriefLength [ActyText.wow.bytes, tagAdded, ptr.bytes, stop]
  | .buyBook => snprintf maxBriefLength [ActyText.buy.bytes, tagAdded, ptr.bytes, stop]
  | .errCmdInvalid => snprintf maxBriefLength [invalidCommand]
  | .errGeneral => snprintf maxBriefLength [systemError]

/-- `briefEx`; without a pointer the text is that of a general error. -/
def briefEx (malloc : Bool) (briefEvent : BriefEvt) (ptr : Option CString) :
    Option (List UInt8) :=
  if malloc then some (ptr.elim Brief.systemError briefEvent.text) else none

/-- Without a pointer every event has the text of the general error. -/
theorem briefEx_none (malloc : Bool) (briefEvent : BriefEvt) :
    briefEx malloc briefEvent none =
      if malloc then some (BriefEvt.errGeneral.text .empty) else none := by
  cases malloc <;> rfl

/-- What tells the user that the book has the tag. -/
def Mark.evt : Mark → BriefEvt
  | .wow => .wowBook
  | .buy => .buyBook

def Mark.help : Mark → BriefEvt
  | .wow => .hlpWow
  | .buy => .hlpBuy

/-! ### The surroundings of a call -/

/-- What a call finds outside the directory: the name of the session's user, whether
`DIAG_ERROR` reads its arguments, the texts of times, and the answers of `malloc`, for the
list of `getBookInfo`, for copies of activities, for a mark, for a first reply and for the
reply of the tail. -/
structure Surroundings where
  userName : CString
  diagnoses : Bool
  myAscTimeLite : ℕ → CString
  bookList : Bool
  copies : ℕ → Option ℕ
  mark : MarkInput
  first : Bool
  tail : Bool

inductive Lookup where
  | user (name : CString)
  | friend (host : ℕ) (name : CString)
  | book (name : CString)
  deriving DecidableEq

def lookUpUser (g : Server) (name : CString) : Traced Lookup (Option ℕ) := do
  Traced.note (.user name)
  Traced.ofOption (getUserInfo g name none)

theorem lookUpUser_result (g : Server) (name : CString) :
    (lookUpUser g name).result = getUserInfo g name none := rfl

def lookUpFriend (g : Server) (host : ℕ) (name : CString) : Traced Lookup (Option ℕ) := do
  Traced.note (.friend host name)
  return getFrdInfo g host name

/-- `getBookInfo` for a filter by name, if the filter was assigned: the status, and the book in
the list that `*books` is set to, if it is. -/
def getBookInfo (g : Server) (malloc : Bool) (filter : Option CString) :
    Traced Lookup (SystemStatus × Option ℕ) := do
  let bookName ← Traced.ofOption filter
  Traced.note (.book bookName)
  let bookFound ← Traced.ofOption (getBookByName g none bookName)
  match bookFound with
  | none => return (.ok, none)
  | some book => return if malloc then (.ok, some book) else (.fail, none)

/-- `wowBook` or `buyBook`, with the slot that `addUserActy` writes. -/
def markSite (m : Mark) (s : SiteServer) (host book : ℕ) (input : MarkInput) :
    Option (SystemStatus × SiteServer) := do
  let info ← s.acties.server.book book
  let (result, acties) ← markBook m s.acties host book input
  let recorded := siteStep s ⟨host, m.filter, info.name, input⟩
  return (result, ⟨acties, if result = .ok then recorded.bookTotal else s.bookTotal⟩)

/-- The nodes behind a pointer that was NULL before the call. -/
def ActyRef.nodes (own : List Acty) : ActyRef → List Acty
  | .null | .held => []
  | .own => own
  | .copies node nodes => (node :: nodes).map Prod.snd

/-! ### The variables of a handler -/

structure Locals where
  activities : List Acty
  numActy : UInt32
  cmdValid : Bool
  rtnMsg : Option (List UInt8)
  result : SystemStatus
  queryParsed : Bool
  site : SiteServer

def Locals.start (s : SiteServer) : Locals := ⟨[], 0, true, none, .ok, false, s⟩

structure Answer where
  rtnMsg : Option (List UInt8)
  site : SiteServer

/-- The tail of the handlers. -/
def Locals.finish (env : Surroundings) (l : Locals) : Option Answer :=
  (if l.cmdValid = false then some (briefEx env.tail .errCmdInvalid none)
    else if l.result = .ok then some (briefEx env.tail .errGeneral none)
    else if l.queryParsed = false then
      Brief.briefActy env.myAscTimeLite env.tail l.numActy l.activities
    else some l.rtnMsg).map fun rtnMsg => ⟨rtnMsg, l.site⟩

section Tail

variable {env : Surroundings} {l : Locals} {a : Answer}

theorem briefActy_cases {myAscTimeLite : ℕ → CString} {malloc : Bool} {numActy : UInt32}
    {activities : List Acty} {reply : Option (List UInt8)}
    (h : Brief.briefActy myAscTimeLite malloc numActy activities = some reply) :
    reply = none ∨ reply = some Brief.noActivities := by
  cases malloc with
  | false =>
    cases h
    exact Or.inl rfl
  | true =>
    rw [Brief.briefActy, if_pos rfl] at h
    split_ifs at h with hnone
    · cases h
      exact Or.inr rfl
    · cases activities with
      | nil => exact absurd (Or.inr rfl) hnone
      | cons current rest => cases h

theorem finish_of_ok (h : l.cmdValid = false ∨ l.result = .ok) :
    l.finish env = some ⟨if env.tail then some (BriefEvt.errGeneral.text .empty) else none,
      l.site⟩ := by
  rw [Locals.finish]
  by_cases hinvalid : l.cmdValid = false
  · rw [if_pos hinvalid, briefEx_none]
    rfl
  · rw [if_neg hinvalid, if_pos (h.resolve_left hinvalid), briefEx_none]
    rfl

theorem finish_of_fail (hvalid : l.cmdValid = true) (hresult : l.result ≠ .ok)
    (hparsed : l.queryParsed = false) (ha : l.finish env = some a) :
    a.rtnMsg = none ∨ a.rtnMsg = some Brief.noActivities := by
  rw [Locals.finish, hvalid, if_neg Bool.true_eq_false.mp, if_neg hresult, if_pos hparsed] at ha
  obtain ⟨rtnMsg, hbrief, rfl⟩ := Option.map_eq_some_iff.mp ha
  exact briefActy_cases hbrief

end Tail

/-! ### The handlers -/

section Handlers

variable (rounds : ℕ) (env : Surroundings) (s : SiteServer) (c : Command)

/-- The branches of `eLibrary_SVR_input_Whatsup`; `mergeActy` is given a list and a number of its
own. -/
def whatsupBody : Traced Lookup Locals := do
  match ← lookUpUser s.acties.server env.userName with
  | none => return { Locals.start s with result := .fail }
  | some host =>
    if c.numOptions = 0 then
      let r ← Traced.ofOption (mergeActy rounds env.copies s.acties host [] 0)
      return { Locals.start s with result := r.result, numActy := r.counter }
    else if c.IsOption 0 'f' ∧ 0 < c.numParams then
      let frdName ← Traced.ofOption c.params[0]?
      match ← lookUpFriend s.acties.server host frdName with
      | none => return { Locals.start s with result := .fail }
      | some friend =>
        let r ← Traced.ofOption (getUserActy s.acties friend .all env.copies 0 .null)
        let activities := r.activities.nodes (s.acties.activity friend)
        return { Locals.start s with
          result := r.result, numActy := r.numActy, activities := activities }
    else if c.IsOption 0 'h' then
      return { Locals.start s with
        rtnMsg := briefEx env.first .hlpWhatsup none, queryParsed := true }
    else return { Locals.start s with cmdValid := false }

def inputWhatsup : Traced Lookup Answer := do
  let l ← whatsupBody rounds env s c
  Traced.ofOption (l.finish env)

/-- The branch for `-f` of `wow` and `buy`. -/
def friendBody (m : Mark) : Traced Lookup Locals := do
  let name ← Traced.ofOption c.params[0]?
  match ← lookUpUser s.acties.server name with
  | none => return { Locals.start s with result := .fail }
  | some user =>
    let r ← Traced.ofOption (getUserActy s.acties user (.of m.filter) env.copies 0 .null)
    let activities := r.activities.nodes (s.acties.activity user)
    let l := { Locals.start s with
      result := r.result, numActy := r.numActy, activities := activities }
    if r.result = .ok then
      let rtnMsg ← Traced.ofOption
        (Brief.briefActy env.myAscTimeLite env.first r.numActy activities)
      return { l with rtnMsg := rtnMsg, queryParsed := true }
    else return l

def bookBody (m : Mark) : Traced Lookup Locals := do
  let name ← Traced.ofOption c.params[0]?
  let (result, books) ← getBookInfo s.acties.server env.bookList (some name)
  if result = .ok then
    let book ← Traced.ofOption (books.bind s.acties.server.book)
    let r := getBookHty env.myAscTimeLite env.copies book (.of m.filter) 0 []
    let l := { Locals.start s with
      result := r.status, numActy := r.counter, activities := r.activities }
    if r.status = .ok then
      let rtnMsg ← Traced.ofOption
        (Brief.briefActy env.myAscTimeLite env.first r.counter r.activities)
      return { l with rtnMsg := rtnMsg, queryParsed := true }
    else return l
  else return { Locals.start s with result := result }

def optionBody (m : Mark) : Traced Lookup Locals :=
  if c.IsOption 0 'f' then friendBody env s c m
  else if c.IsOption 0 'b' then bookBody env s c m
  else if c.IsOption 0 'h' then
    return { Locals.start s with rtnMsg := briefEx env.first m.help none, queryParsed := true }
  else return { Locals.start s with cmdValid := false }

/-- What `wow` and `buy` do for a user they have found, with the filter if it was assigned. -/
def markNamed (m : Mark) (user : ℕ) (filter : Option CString) (param : CString) :
    Traced Lookup Locals := do
  let (result, books) ← getBookInfo s.acties.server env.bookList filter
  if result = .ok then
    let book ← Traced.ofOption books
    let (result, site) ← Traced.ofOption (markSite m s user book env.mark)
    if result = .ok then
      return { Locals.start site with
        rtnMsg := briefEx env.first m.evt (some param), queryParsed := true }
    else return { Locals.start site with result := result }
  else return { Locals.start s with result := result }

/-- Without a user `DIAG_ERROR` is given the name of the user that is NULL. -/
def noUser : Traced Lookup Locals :=
  if env.diagnoses then Traced.ofOption none
  else return { Locals.start s with result := .fail }

/-- The branches of `eLibrary_SVR_input_Wow` without options: the user is looked up by the name of
the book, and nothing is assigned to the filter. -/
def wowBody : Traced Lookup Locals :=
  match c.params with
  | [] => do
    let rtnMsg ← Traced.ofOption
      (briefGlabalBookHty rounds env.first s.bookTotal (.of .byWow))
    return { Locals.start s with rtnMsg := some rtnMsg }
  | param :: _ => do
    match ← lookUpUser s.acties.server param with
    | some user => markNamed env s .wow user none param
    | none => noUser env s

def inputWow : Traced Lookup Answer := do
  let l ← if c.numOptions = 0 then wowBody rounds env s c else optionBody env s c .wow
  Traced.ofOption (l.finish env)

def buyBody : Traced Lookup Locals :=
  match c.params with
  | [] => do
    let rtnMsg ← Traced.ofOption
      (briefGlabalBookHty rounds env.first s.bookTotal (.of .byBuy))
    return { Locals.start s with rtnMsg := some rtnMsg, queryParsed := true }
  | param :: _ => do
    match ← lookUpUser s.acties.server env.userName with
    | some user => markNamed env s .buy user (some param) param
    | none => noUser env s

def inputBuy : Traced Lookup Answer := do
  let l ← if c.numOptions = 0 then buyBody rounds env s c else optionBody env s c .buy
  Traced.ofOption (l.finish env)

end Handlers

/-! ### A session -/

def smallSite : SiteServer := ⟨{ readers with
  server := { readers.server with userList := [0, 1, 2], bookTotal := ⟨[0], some 0, 1⟩ } }, .zero⟩

def eveSession : Surroundings where
  userName := (readers.server.user 1).username
  diagnoses := true
  myAscTimeLite _ := .empty
  bookList := true
  copies := some
  mark := ⟨0, .empty, true, true⟩
  first := true
  tail := true

end MorningProjects.ELibrary
