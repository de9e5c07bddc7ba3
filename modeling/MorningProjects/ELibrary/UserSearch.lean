import MorningProjects.ELibrary.Directory
import MorningProjects.Library.FirstHit
import MorningProjects.Library.While

/-!
# Searching the directory to an end

The loop of `getUserInfo` goes from node to node while it holds the lock of the
directory, but stays for ever at a user of the name with another email. So the
first user whose name starts with the name asked for decides whether the search
ends, and whether `addUser`, which searches first, returns.
-/
namespace MorningProjects.ELibrary
open Library

/-! ### The loop of `getUserInfo` -/

/-- The variables of a call: `current` is the place of a node in the directory, or the place
behind the last one for NULL. `visited` collects the nodes whose names were compared. -/
structure UserSearch where
  current : ℕ
  userFound : Option ℕ
  holdsLock : Bool
  visited : List ℕ

namespace UserSearch

def start : UserSearch := ⟨0, none, false, []⟩

def goesOn (g : Server) (s : UserSearch) : Bool :=
  s.userFound.isNone && s.current < g.userList.length

/-- A round of the loop. A `continue` skips the step to the next node, and a name that is NULL
is dereferenced. -/
def round (g : Server) (username email : Option CString) (s : UserSearch) : Option UserSearch :=
  match username, g.userList[s.current]? with
  | some name, some u =>
    let s := { s with visited := s.visited ++ [s.current] }
    if (g.user u).username.strncmp name name.strlen = 0 then
      if email.any fun e => (g.user u).email.strncmp e e.strlen ≠ 0 then some s
      else some { s with userFound := some u, current := s.current + 1 }
    else some { s with current := s.current + 1 }
  | _, _ => none

end UserSearch

/-- `getUserInfo`, if its loop ends within the given number of rounds. `lock` tells whether
`pthread_mutex_lock` succeeds. -/
def getUserInfoWithin (rounds : ℕ) (g : Server) (username email : Option CString)
    (lock : Bool) : Option UserSearch :=
  if lock then
    (whileWithin (UserSearch.goesOn g) (UserSearch.round g username email) rounds
      { UserSearch.start with holdsLock := true }).map fun s => { s with holdsLock := false }
  else some UserSearch.start

/-- The user's name and email agree with those asked for, NULL being no name and any email. -/
def Server.MatchesUser (agrees : CString → CString → Prop) (g : Server)
    (username email : Option CString) (u : ℕ) : Prop :=
  (∃ name ∈ username, agrees (g.user u).username name) ∧ ∀ e ∈ email, agrees (g.user u).email e

def Server.StopsAt (g : Server) (username : Option CString) (u : ℕ) : Prop :=
  ∀ name ∈ username, (g.user u).username.StartsWith name

instance (g : Server) (username : Option CString) : DecidablePred (g.StopsAt username) :=
  fun _ => inferInstanceAs (Decidable (∀ name ∈ username, _))

instance (g : Server) (username email : Option CString) :
    DecidablePred (g.MatchesUser CString.StartsWith username email) :=
  fun _ => inferInstanceAs (Decidable ((∃ name ∈ username, _) ∧ ∀ e ∈ email, _))

/-- What the loop does at a user before it takes it: a NULL name is dereferenced, and a user of
the name with another email is looked at for ever. -/
def visitUser (g : Server) (username email : Option CString) (u : ℕ) : Option Bool :=
  if g.StopsAt username u ∧ ¬ g.MatchesUser CString.StartsWith username email u then none
  else some true

/-- The search over the users from a node on. -/
def searchUsers (g : Server) (username email : Option CString) (us : List ℕ) :
    Option (Option ℕ) :=
  searchFrom (visitUser g username email) (g.MatchesUser CString.StartsWith username email) us

section Search

variable {g : Server} {name : CString} {username email : Option CString} {u : ℕ} {us : List ℕ}
  {wanted : ℕ → Prop} {found : Option ℕ}

theorem stopsAt_of_matchesUser (h : g.MatchesUser CString.StartsWith username email u) :
    g.StopsAt username u := by
  obtain ⟨⟨name, hname, hstarts⟩, -⟩ := h
  intro name' hname'
  rwa [Option.mem_unique hname' hname]

theorem matchesUser_of_eq (h : g.MatchesUser (· = ·) username email u) :
    g.MatchesUser CString.StartsWith username email u := by
  obtain ⟨⟨name, hname, heq⟩, hemail⟩ := h
  refine ⟨⟨name, hname, ?_⟩, fun e he => ?_⟩
  · rw [heq]
    exact name.startsWith_self
  · rw [hemail e he]
    exact e.startsWith_self

theorem searchUsers_cons_of_not (h : ¬ g.StopsAt username u) :
    searchUsers g username email (u :: us) = searchUsers g username email us := by
  have hno : ¬ g.MatchesUser CString.StartsWith username email u :=
    fun hmatch => h (stopsAt_of_matchesUser hmatch)
  rw [searchUsers, searchFrom, visitUser, if_neg fun hboth => h hboth.1, Option.bind_some,
    if_neg Bool.noConfusion, if_neg hno, searchUsers]

theorem searchUsers_cons_of_stops (h : g.StopsAt username u) :
    searchUsers g username email (u :: us) =
      if g.MatchesUser CString.StartsWith username email u then some (some u) else none := by
  rw [searchUsers, searchFrom, visitUser]
  by_cases hmatch : g.MatchesUser CString.StartsWith username email u
  · simp [hmatch]
  · simp [h, hmatch]

theorem searchUsers_cons_null : searchUsers g none email (u :: us) = none := by
  have hstops : g.StopsAt none u := fun name hname => by cases hname
  have hno : ¬ g.MatchesUser CString.StartsWith none email u := by
    rintro ⟨⟨name, hname, -⟩, -⟩
    cases hname
  rw [searchUsers_cons_of_stops hstops, if_neg hno]

/-- The search is the one that the other callers of `getUserInfo` are modelled with. -/
theorem getUserInfoFrom_eq_searchUsers :
    getUserInfoFrom g name email us = searchUsers g (some name) email us := by
  induction us with
  | nil => rfl
  | cons u us ih =>
    by_cases hstops : (g.user u).username.StartsWith name
    · rw [searchUsers_cons_of_stops (by simpa [Server.StopsAt] using hstops)]
      cases email <;> simp [getUserInfoFrom, hstops, Server.MatchesUser]
    · rw [searchUsers_cons_of_not (by simpa [Server.StopsAt] using hstops), ← ih]
      cases email <;> simp [getUserInfoFrom, hstops]

/-- The first user that stops the search decides it. -/
theorem searchUsers_eq (us : List ℕ) :
    searchUsers g username email us =
      match us.find? (g.StopsAt username) with
      | none => some none
      | some u => if g.MatchesUser CString.StartsWith username email u then some (some u)
          else none := by
  induction us with
  | nil => rfl
  | cons u us ih =>
    rw [List.find?_cons]
    by_cases hstops : g.StopsAt username u
    · simp [searchUsers_cons_of_stops hstops, hstops]
    · simp [searchUsers_cons_of_not hstops, ih, hstops]

/-- The first user of the list that stops the search, if any does, is wanted. -/
def FirstStopIs (wanted : ℕ → Prop) (g : Server) (username : Option CString) : Prop :=
  ∀ u, g.userList.find? (g.StopsAt username) = some u → wanted u

/-- The search is right exactly if the first user that stops it is wanted. -/
theorem answersExactly_searchUsers_iff
    (hwanted : ∀ u, wanted u → g.MatchesUser CString.StartsWith username email u) :
    AnswersExactly wanted g.userList (searchUsers g username email g.userList) ↔
      FirstStopIs wanted g username := by
  rw [searchUsers_eq, FirstStopIs]
  cases hfind : g.userList.find? (g.StopsAt username) with
  | none =>
    have hno := List.find?_eq_none.mp hfind
    refine iff_of_true (fun u hu hw => ?_) (fun u h => by cases h)
    exact hno u hu (decide_eq_true (stopsAt_of_matchesUser (hwanted u hw)))
  | some u =>
    have hmem := List.mem_of_find?_eq_some hfind
    simp only [Option.some.injEq, forall_eq']
    split_ifs with hmatch
    · exact and_iff_right hmem
    · exact iff_of_false id fun hw => hmatch (hwanted u hw)

/-- The search has an answer exactly if the first user that stops it is a match. -/
theorem exists_searchUsers_iff :
    (∃ found, searchUsers g username email g.userList = some found) ↔
      FirstStopIs (g.MatchesUser CString.StartsWith username email) g username := by
  rw [searchUsers_eq, FirstStopIs]
  cases g.userList.find? (g.StopsAt username) with
  | none => simp
  | some u => simp

theorem searchUsers_eq_none_iff :
    searchUsers g username email g.userList = some none ↔
      ∀ u ∈ g.userList, ¬ g.StopsAt username u := by
  rw [searchUsers_eq]
  cases hfind : g.userList.find? (g.StopsAt username) with
  | none => simpa using hfind
  | some u =>
    have hstops : g.StopsAt username u := by simpa using List.find?_some hfind
    refine iff_of_false ?_ fun hno => hno u (List.mem_of_find?_eq_some hfind) hstops
    dsimp only
    split_ifs <;> simp

/-! ### Round by round -/

namespace UserSearch

variable {s s' : UserSearch}

/-- The answer that a call arrives at from here. -/
def remaining (g : Server) (username email : Option CString) (s : UserSearch) :
    Option (Option ℕ) :=
  match s.userFound with
  | some u => some (some u)
  | none => searchUsers g username email (g.userList.drop s.current)

theorem goesOn_iff : s.goesOn g ↔ s.userFound = none ∧ s.current < g.userList.length := by
  simp [goesOn]

theorem round_cases (h : s.round g username email = some s') :
    ∃ u, g.userList.drop s.current = u :: g.userList.drop (s.current + 1) ∧
      s'.holdsLock = s.holdsLock ∧ s'.visited = s.visited ++ [s.current] ∧
      (¬ g.StopsAt username u ∧ s'.current = s.current + 1 ∧ s'.userFound = s.userFound ∨
        g.MatchesUser CString.StartsWith username email u ∧ s'.current = s.current + 1 ∧
          s'.userFound = some u ∨
        g.StopsAt username u ∧ ¬ g.MatchesUser CString.StartsWith username email u ∧
          s'.current = s.current ∧ s'.userFound = s.userFound) := by
  cases username with
  | none => cases h
  | some name =>
    cases hu : g.userList[s.current]? with
    | none =>
      simp [round, hu] at h
    | some u =>
      obtain ⟨hlt, rfl⟩ := List.getElem?_eq_some_iff.mp hu
      refine ⟨_, List.drop_eq_getElem_cons hlt, ?_⟩
      have hstops : g.StopsAt (some name) g.userList[s.current] ↔
          (g.user g.userList[s.current]).username.StartsWith name := by simp [Server.StopsAt]
      have hmatch : g.MatchesUser CString.StartsWith (some name) email g.userList[s.current] ↔
          (g.user g.userList[s.current]).username.StartsWith name ∧
            ∀ e ∈ email, (g.user g.userList[s.current]).email.StartsWith e := by
        simp [Server.MatchesUser]
      simp only [round, hu, CString.strncmp_strlen] at h
      rw [hstops, hmatch]
      split_ifs at h with hname hemail
      · cases h
        refine ⟨rfl, rfl, .inr (.inr ⟨hname, fun hboth => ?_, rfl, rfl⟩)⟩
        obtain ⟨e, he, hne⟩ := (Option.any_eq_true _ _).mp hemail
        exact of_decide_eq_true hne (CString.strncmp_strlen.mpr (hboth.2 e he))
      · cases h
        refine ⟨rfl, rfl, .inr (.inl ⟨⟨hname, fun e he => ?_⟩, rfl, rfl⟩)⟩
        by_contra hne
        exact hemail ((Option.any_eq_true _ _).mpr ⟨e, he, by simpa using hne⟩)
      · cases h
        exact ⟨rfl, rfl, .inl ⟨hname, rfl, rfl⟩⟩

theorem remaining_round (hgo : s.goesOn g) (h : s.round g username email = some s') :
    s'.remaining g username email = s.remaining g username email := by
  obtain ⟨u, hdrop, -, -, hcases⟩ := round_cases h
  have hnone := (goesOn_iff.mp hgo).1
  rw [remaining, remaining, hnone, hdrop]
  rcases hcases with ⟨hno, hcurrent, hfound⟩ | ⟨hmatch, -, hfound⟩ | ⟨-, -, hcurrent, hfound⟩
  · rw [hfound, hnone, hcurrent, searchUsers_cons_of_not hno]
  · rw [hfound, searchUsers_cons_of_stops (stopsAt_of_matchesUser hmatch), if_pos hmatch]
  · rw [hfound, hnone, hcurrent, hdrop]

/-- A search without an answer does not end. -/
theorem goesOn_of_remaining (h : s.remaining g username email = none) : s.goesOn g := by
  rw [goesOn_iff]
  cases hfound : s.userFound with
  | some u =>
    rw [remaining, hfound] at h
    cases h
  | none =>
    refine ⟨rfl, not_le.mp fun hle => ?_⟩
    rw [remaining, hfound, List.drop_of_length_le hle] at h
    cases h

structure OnWay (g : Server) (username email : Option CString) (found : Option ℕ)
    (s : UserSearch) : Prop where
  remaining : s.remaining g username email = some found
  holdsLock : s.holdsLock = true
  visited : s.visited = List.range s.current
  current_le : s.current ≤ g.userList.length

theorem OnWay.atStart (h : searchUsers g username email g.userList = some found) :
    { start with holdsLock := true }.OnWay g username email found :=
  ⟨h, rfl, rfl, Nat.zero_le _⟩

theorem OnWay.round (hs : s.OnWay g username email found) (hgo : s.goesOn g) :
    ∃ s', s.round g username email = some s' ∧ s'.OnWay g username email found ∧
      g.userList.length - s'.current < g.userList.length - s.current := by
  obtain ⟨hnone, hlt⟩ := goesOn_iff.mp hgo
  have hanswer := hs.remaining
  rw [UserSearch.remaining, hnone, List.drop_eq_getElem_cons hlt] at hanswer
  cases hround : s.round g username email with
  | none =>
    cases username with
    | none =>
      rw [searchUsers_cons_null] at hanswer
      cases hanswer
    | some name =>
      simp only [UserSearch.round, List.getElem?_eq_getElem hlt] at hround
      split_ifs at hround
  | some s' =>
    obtain ⟨u, hdrop, hlock, hvisited, hcases⟩ := round_cases hround
    have hcurrent : s'.current = s.current + 1 := by
      rcases hcases with ⟨-, hcurrent, -⟩ | ⟨-, hcurrent, -⟩ | ⟨hstops, hno, -, -⟩
      · exact hcurrent
      · exact hcurrent
      · rw [← List.drop_eq_getElem_cons hlt, hdrop, searchUsers_cons_of_stops hstops,
          if_neg hno] at hanswer
        cases hanswer
    refine ⟨s', rfl, ⟨?_, ?_, ?_, ?_⟩, ?_⟩
    · rw [remaining_round hgo hround, hs.remaining]
    · rw [hlock, hs.holdsLock]
    · rw [hvisited, hs.visited, hcurrent, List.range_succ]
    · omega
    · omega

end UserSearch

/-- Where a call ends, it has been once at each node before some place, with the answer of the
search. -/
theorem getUserInfoWithin_spec {rounds : ℕ} {s : UserSearch}
    (h : getUserInfoWithin rounds g username email true = some s) :
    searchUsers g username email g.userList = some s.userFound ∧ s.holdsLock = false ∧
      s.visited = List.range s.current ∧ s.current ≤ g.userList.length := by
  rw [getUserInfoWithin, if_pos rfl] at h
  obtain ⟨t, ht, rfl⟩ := Option.map_eq_some_iff.mp h
  cases hanswer : searchUsers g username email g.userList with
  | none =>
    rw [whileWithin_eq_none (fun s => s.remaining g username email = none) _ hanswer] at ht
    · cases ht
    · intro s hs
      have hgo := UserSearch.goesOn_of_remaining hs
      exact ⟨hgo, fun s' hs' => (UserSearch.remaining_round hgo hs').trans hs⟩
  | some found =>
    have hround : ∀ s s' : UserSearch, s.OnWay g username email found → s.goesOn g →
        s.round g username email = some s' → s'.OnWay g username email found := by
      intro s s' hs hgo hs'
      obtain ⟨s'', hs'', hnext, -⟩ := hs.round hgo
      rw [hs'] at hs''
      cases hs''
      exact hnext
    obtain ⟨hend, hstop⟩ := whileWithin_invariant hround (.atStart hanswer) ht
    refine ⟨?_, rfl, hend.visited, hend.current_le⟩
    have hfound := hend.remaining
    rw [UserSearch.remaining] at hfound
    cases huser : t.userFound with
    | some u =>
      rw [huser] at hfound
      exact hfound.symm
    | none =>
      have hle : g.userList.length ≤ t.current := by
        by_contra hlt
        rw [UserSearch.goesOn_iff.mpr ⟨huser, not_le.mp hlt⟩] at hstop
        cases hstop
      rw [huser, List.drop_of_length_le hle] at hfound
      exact hfound.symm

theorem exists_getUserInfoWithin
    (h : searchUsers g username email g.userList = some found) :
    ∃ s, getUserInfoWithin g.userList.length g username email true = some s ∧
      s.userFound = found := by
  obtain ⟨t, ht⟩ := exists_whileWithin (fun s hs hgo => hs.round hgo)
    (UserSearch.OnWay.atStart h) (Nat.sub_le _ _)
  have hs : getUserInfoWithin g.userList.length g username email true =
      some { t with holdsLock := false } := by
    rw [getUserInfoWithin, if_pos rfl, ht, Option.map_some]
  refine ⟨_, hs, ?_⟩
  have hfound := (getUserInfoWithin_spec hs).1
  rw [h] at hfound
  exact (Option.some.inj hfound).symm

/-- The calls that other functions make are those that end. -/
theorem getUserInfo_eq_some_iff :
    getUserInfo g name email = some found ↔
      ∃ rounds s, getUserInfoWithin rounds g (some name) email true = some s ∧
        s.userFound = found := by
  rw [getUserInfo, getUserInfoFrom_eq_searchUsers]
  constructor
  · intro h
    exact ⟨_, exists_getUserInfoWithin h⟩
  · rintro ⟨rounds, s, hs, rfl⟩
    exact (getUserInfoWithin_spec hs).1

/-- A call returns with the lock released after at most one visit to each node, and returns a
wanted user if there is one. -/
def SearchEnds (wanted : ℕ → Prop) (g : Server) (username email : Option CString)
    (lock : Bool) : Prop :=
  ∃ rounds s, getUserInfoWithin rounds g username email lock = some s ∧ s.holdsLock = false ∧
    s.visited.Nodup ∧ AnswersExactly wanted g.userList (some s.userFound)

theorem searchEnds_iff
    (hwanted : ∀ u, wanted u → g.MatchesUser CString.StartsWith username email u) (lock : Bool) :
    SearchEnds wanted g username email lock ↔
      if lock then FirstStopIs wanted g username else ∀ u ∈ g.userList, ¬ wanted u := by
  cases lock with
  | false =>
    constructor
    · rintro ⟨rounds, s, hs, -, -, hanswer⟩
      cases hs
      exact hanswer
    · intro hno
      exact ⟨0, _, rfl, rfl, List.nodup_nil, hno⟩
  | true =>
    rw [if_pos rfl, ← answersExactly_searchUsers_iff hwanted]
    constructor
    · rintro ⟨rounds, s, hs, -, -, hanswer⟩
      rwa [(getUserInfoWithin_spec hs).1]
    · intro hanswer
      cases hfound : searchUsers g username email g.userList with
      | none =>
        rw [hfound] at hanswer
        cases hanswer
      | some found =>
        rw [hfound] at hanswer
        obtain ⟨s, hs, rfl⟩ := exists_getUserInfoWithin hfound
        obtain ⟨-, hlock, hvisited, -⟩ := getUserInfoWithin_spec hs
        refine ⟨_, s, hs, hlock, ?_, hanswer⟩
        rw [hvisited]
        exact List.nodup_range

end Search

/-! ### `addUser` -/

structure Directory where
  server : Server
  numUsers : UInt32
  counted : numUsers = UInt32.ofNat server.userList.length

namespace Directory

def setUser (d : Directory) (u : ℕ) (info : UserInfo) : Directory :=
  ⟨d.server.setUser u info, d.numUsers, d.counted⟩

def insert (d : Directory) (u : ℕ) : Directory :=
  if h : d.numUsers = 0 then
    ⟨{ d.server with userList := [u] }, d.numUsers + 1, by rw [h]; rfl⟩
  else
    ⟨{ d.server with userList := d.server.userList ++ [u] }, d.numUsers + 1, by
      rw [d.counted, List.length_append, UInt32.ofNat_add]; rfl⟩

end Directory

/-- The answers of `malloc`, and of `pthread_mutex_lock` in the search and before the insertion. -/
structure AddAnswers extends UserMallocs where
  searchLock : Bool
  insertLock : Bool

/-- The rest of `addUser`, when its search found nobody. The lock does not admit its holder. -/
def Directory.addNew (layout : UserLayout) (d : Directory) (userName email : CString)
    (holdsLock : Bool) (answers : AddAnswers) : Option (SystemStatus × Directory) :=
  match answers.newUser with
  | none => some (.fail, d)
  | some u =>
    let d := d.setUser u (newUserInfo layout userName email)
    if answers.usernode then
      if holdsLock then none
      else if answers.insertLock then some (if answers.acty then .ok else .fail, d.insert u)
      else some (.fail, d)
    else some (.fail, d)

/-- `addUser`, if its search ends within the given number of rounds. -/
def addUserWithin (rounds : ℕ) (layout : UserLayout) (d : Directory)
    (userName email : Option CString) (answers : AddAnswers) : Option (SystemStatus × Directory) :=
  match userName, email with
  | some name, some e =>
    (getUserInfoWithin rounds d.server (some name) (some e) answers.searchLock).bind fun s =>
      if s.userFound.isSome then some (.fail, d)
      else d.addNew layout name e s.holdsLock answers
  | _, _ => some (.fail, d)

namespace Directory

variable {layout : UserLayout} {d d' : Directory} {name e : CString}
  {userName email : Option CString} {answers : AddAnswers} {u : ℕ}

/-- The users of the directory and the library stay as they are, and at most one user, with the
name and email given, joins them behind the last one. -/
structure AddsOneOrNone (layout : UserLayout) (userName email : Option CString)
    (d d' : Directory) : Prop where
  user : ∀ v ∈ d.server.userList, d'.server.user v = d.server.user v
  library : d'.server.book = d.server.book ∧ d'.server.bookTotal = d.server.bookTotal
  userList : d'.server.userList = d.server.userList ∨
    ∃ u name e, u ∉ d.server.userList ∧ userName = some name ∧ email = some e ∧
      d'.server.userList = d.server.userList ++ [u] ∧
      d'.server.user u = newUserInfo layout name e

theorem AddsOneOrNone.refl (layout : UserLayout) (userName email : Option CString)
    (d : Directory) : d.AddsOneOrNone layout userName email d :=
  ⟨fun _ _ => rfl, ⟨rfl, rfl⟩, .inl rfl⟩

theorem addsOneOrNone_setUser (layout : UserLayout) (userName email : Option CString)
    (hfresh : u ∉ d.server.userList) (info : UserInfo) :
    d.AddsOneOrNone layout userName email (d.setUser u info) := by
  refine ⟨fun v hv => setUser_user_of_ne _ ?_ _, ⟨rfl, rfl⟩, .inl rfl⟩
  rintro rfl
  exact hfresh hv

theorem insert_server_of_zero (h0 : d.numUsers = 0) :
    (d.insert u).server = { d.server with userList := [u] } := by rw [insert, dif_pos h0]

/-- The new node becomes the last one, as long as the counter is 0 only for an empty list. -/
theorem insert_server (h : d.numUsers = 0 → d.server.userList = []) :
    (d.insert u).server = { d.server with userList := d.server.userList ++ [u] } := by
  by_cases h0 : d.numUsers = 0
  · rw [insert_server_of_zero h0, h h0, List.nil_append]
  · rw [insert, dif_neg h0]

/-- A new user joins the others, unless the counter of users has come back to 0. -/
theorem addsOneOrNone_insert_iff (hfresh : u ∉ d.server.userList) :
    d.AddsOneOrNone layout (some name) (some e)
        ((d.setUser u (newUserInfo layout name e)).insert u) ↔
      (d.numUsers = 0 → d.server.userList = []) := by
  constructor
  · intro hadds h0
    have hone : ((d.setUser u (newUserInfo layout name e)).insert u).server.userList =
        [u] := by
      rw [insert_server_of_zero (d := d.setUser u (newUserInfo layout name e)) h0]
    -- The new node is the only one, so no other was there before.
    rcases hadds.userList with hlist | ⟨v, -, -, -, -, -, hlist, -⟩
    · rw [← hlist, hone] at hfresh
      exact absurd (List.mem_singleton_self u) hfresh
    · rw [hone, ← List.nil_append [u]] at hlist
      exact (List.append_inj_left' hlist rfl).symm
  · intro hcounts
    have hrecord := addsOneOrNone_setUser layout (some name) (some e) hfresh
      (newUserInfo layout name e)
    have hserver := insert_server (u := u)
      (d := d.setUser u (newUserInfo layout name e)) hcounts
    refine ⟨?_, ?_, .inr ⟨u, name, e, hfresh, rfl, rfl, ?_, ?_⟩⟩
    · rw [hserver]
      exact hrecord.user
    · rw [hserver]
      exact hrecord.library
    · rw [hserver]
      rfl
    · rw [hserver]
      exact setUser_user_self _ _ _

/-- A user is inserted only while the counter of users is 0 for no other reason than that there
are none. -/
def CountsOn (d : Directory) (answers : AddAnswers) : Prop :=
  answers.newUser ≠ none → answers.usernode → answers.insertLock → d.numUsers = 0 →
    d.server.userList = []

theorem addNew_spec (layout : UserLayout) (name e : CString)
    (hfresh : ∀ u, answers.newUser = some u → u ∉ d.server.userList) :
    ∃ status d', d.addNew layout name e false answers = some (status, d') ∧
      (d.AddsOneOrNone layout (some name) (some e) d' ↔ d.CountsOn answers) := by
  rw [addNew, CountsOn]
  cases hu : answers.newUser with
  | none => exact ⟨_, _, rfl, iff_of_true (.refl ..) fun h => absurd rfl h⟩
  | some u =>
    dsimp only
    have hrecord := addsOneOrNone_setUser layout (some name) (some e) (hfresh u hu)
      (newUserInfo layout name e)
    by_cases hnode : answers.usernode
    · by_cases hlock : answers.insertLock
      · simp only [hnode, hlock, if_true]
        refine ⟨_, _, rfl, ?_⟩
        rw [addsOneOrNone_insert_iff (hfresh u hu)]
        simp
      · simp only [hnode, hlock, if_true]
        exact ⟨_, _, rfl, iff_of_true hrecord fun _ _ h => by cases h⟩
    · simp only [hnode]
      exact ⟨_, _, rfl, iff_of_true hrecord fun _ h => by cases h⟩

def AddEnds (layout : UserLayout) (d : Directory) (userName email : Option CString)
    (answers : AddAnswers) : Prop :=
  ∃ rounds status d', addUserWithin rounds layout d userName email answers =
    some (status, d') ∧ d.AddsOneOrNone layout userName email d'

/-- The search of `addUser` finds nobody: it is not allowed to look, or no user stops it. -/
def FindsNobody (d : Directory) (userName : Option CString) (answers : AddAnswers) : Prop :=
  answers.searchLock → ∀ u ∈ d.server.userList, ¬ d.server.StopsAt userName u

theorem search_spec {rounds : ℕ} {s : UserSearch}
    (h : getUserInfoWithin rounds d.server userName email answers.searchLock = some s) :
    s.holdsLock = false ∧ (s.userFound = none ↔ d.FindsNobody userName answers) ∧
      (answers.searchLock → FirstStopIs
        (d.server.MatchesUser CString.StartsWith userName email) d.server userName) := by
  rw [FindsNobody]
  cases hlock : answers.searchLock with
  | false =>
    rw [hlock] at h
    cases h
    refine ⟨rfl, iff_of_true rfl ?_, ?_⟩
    · intro hf
      cases hf
    · intro hf
      cases hf
  | true =>
    rw [hlock] at h
    obtain ⟨hanswer, hfree, -⟩ := getUserInfoWithin_spec h
    refine ⟨hfree, ?_, fun _ => exists_searchUsers_iff.mp ⟨_, hanswer⟩⟩
    rw [forall_prop_of_true rfl, ← searchUsers_eq_none_iff, hanswer, Option.some.injEq]

theorem addEnds_iff (hfresh : ∀ u, answers.newUser = some u → u ∉ d.server.userList) :
    d.AddEnds layout (some name) (some e) answers ↔
      (answers.searchLock → FirstStopIs
        (d.server.MatchesUser CString.StartsWith (some name) (some e)) d.server (some name)) ∧
      (d.FindsNobody (some name) answers → d.CountsOn answers) := by
  obtain ⟨status, d', hnew, hadds⟩ := addNew_spec layout name e hfresh
  constructor
  · rintro ⟨rounds, status', d'', h, hend⟩
    obtain ⟨s, hs, h⟩ := Option.bind_eq_some_iff.mp h
    obtain ⟨hfree, hnobody, hfirst⟩ := search_spec hs
    refine ⟨hfirst, fun hno => ?_⟩
    rw [hfree, hnobody.mpr hno, Option.isSome_none, if_neg Bool.noConfusion, hnew] at h
    cases h
    exact hadds.mp hend
  · rintro ⟨hfirst, hcounts⟩
    have hends : ∃ s, getUserInfoWithin d.server.userList.length d.server (some name) (some e)
        answers.searchLock = some s := by
      cases hlock : answers.searchLock with
      | false => exact ⟨_, rfl⟩
      | true =>
        obtain ⟨found, hfound⟩ := exists_searchUsers_iff.mpr (hfirst hlock)
        obtain ⟨s, hs, -⟩ := exists_getUserInfoWithin hfound
        exact ⟨s, hs⟩
    obtain ⟨s, hs⟩ := hends
    obtain ⟨hfree, hnobody, -⟩ := search_spec hs
    cases hfound : s.userFound with
    | some u =>
      refine ⟨d.server.userList.length, .fail, d, ?_, .refl ..⟩
      rw [addUserWithin, hs, Option.bind_some, hfound, Option.isSome_some, if_pos rfl]
    | none =>
      refine ⟨d.server.userList.length, status, d', ?_, hadds.mpr (hcounts (hnobody.mp hfound))⟩
      rw [addUserWithin, hs, Option.bind_some, hfound, Option.isSome_none,
        if_neg Bool.noConfusion, hfree, hnew]

/-- With the locks granted and the counter in step, the call is `addUser` as the other functions
see it. -/
theorem addUserWithin_eq_addUser
    (hlocks : answers.searchLock = true ∧ answers.insertLock = true)
    (hcounts : d.numUsers = 0 → d.server.userList = []) :
    (addUserWithin d.server.userList.length layout d (some name) (some e) answers).map
        (fun result => (result.1, result.2.server)) =
      addUser layout d.server name e answers.toUserMallocs := by
  rw [addUserWithin, addUser, hlocks.1]
  cases hfound : getUserInfo d.server name (some e) with
  | none =>
    have hsearch : getUserInfoWithin d.server.userList.length d.server (some name) (some e) true =
        none := by
      rw [Option.eq_none_iff_forall_ne_some]
      intro s hs
      have hsome := getUserInfo_eq_some_iff.mpr ⟨_, s, hs, rfl⟩
      rw [hfound] at hsome
      cases hsome
    rw [hsearch]
    rfl
  | some found =>
    rw [getUserInfo, getUserInfoFrom_eq_searchUsers] at hfound
    obtain ⟨s, hs, rfl⟩ := exists_getUserInfoWithin hfound
    rw [hs, Option.bind_some, Option.map_some, (getUserInfoWithin_spec hs).2.1, addNew]
    cases s.userFound with
    | some u => rfl
    | none =>
      rw [Option.isSome_none, if_neg Bool.noConfusion]
      cases answers.newUser with
      | none => rfl
      | some u =>
        have hinsert := insert_server (u := u)
          (d := d.setUser u (newUserInfo layout name e)) hcounts
        cases answers.usernode with
        | false => rfl
        | true =>
          simp only [hlocks.2, if_true, Bool.false_eq_true, if_false, Option.map_some, hinsert]
          rfl

end Directory

/-- In every directory a call of `getUserInfo` that gets the lock ends, released and with the right
answer, exactly if the first user whose name starts with the one asked for is a right answer,
whether names and emails are compared as a whole or over the characters asked for. A call of
`addUser` ends, with one user more or none, exactly if that user's email starts with the given
one too and the counter of users has not come back to 0. -/
theorem getUserInfo_addUser_iff (layout : UserLayout) (d : Directory)
    (username email : Option CString) :
    (∀ lock, SearchEnds (d.server.MatchesUser (· = ·) username email) d.server username email
        lock ↔
      if lock then FirstStopIs (d.server.MatchesUser (· = ·) username email) d.server username
      else ∀ u ∈ d.server.userList, ¬ d.server.MatchesUser (· = ·) username email u) ∧
    (∀ lock, SearchEnds (d.server.MatchesUser CString.StartsWith username email) d.server
        username email lock ↔
      if lock then
        FirstStopIs (d.server.MatchesUser CString.StartsWith username email) d.server username
      else ∀ u ∈ d.server.userList, ¬ d.server.MatchesUser CString.StartsWith username email u) ∧
    ∀ answers, (∀ u, answers.newUser = some u → u ∉ d.server.userList) →
      (d.AddEnds layout username email answers ↔ (username ≠ none → email ≠ none →
        (answers.searchLock → FirstStopIs
          (d.server.MatchesUser CString.StartsWith username email) d.server username) ∧
        (d.FindsNobody username answers → d.CountsOn answers))) := by
  refine ⟨searchEnds_iff fun u => matchesUser_of_eq, searchEnds_iff fun u => id, ?_⟩
  intro answers hfresh
  cases username with
  | none =>
    exact iff_of_true ⟨0, .fail, d, rfl, .refl ..⟩ fun hname => absurd rfl hname
  | some name =>
    cases email with
    | none =>
      exact iff_of_true ⟨0, .fail, d, rfl, .refl ..⟩ fun _ hemail => absurd rfl hemail
    | some e =>
      rw [Directory.addEnds_iff hfresh, forall_prop_of_true (Option.some_ne_none name),
        forall_prop_of_true (Option.some_ne_none e)]

def alexAlone : Directory :=
  ⟨{ Server.init.setUser 0 (newUserInfo smallLayout alex ⟨word "a@x".toList, by decide⟩) with
      userList := [0] }, 1, rfl⟩

def otherEmail : CString := ⟨word "b@y".toList, by decide⟩

/-- A name that no user has is added, and a search without an email ends at the user. -/
theorem getUserInfo_addUser_iff_example :
    alexAlone.AddEnds smallLayout (some ⟨word "Bea".toList, by decide⟩) (some otherEmail)
        ⟨⟨some 1, true, true⟩, true, true⟩ ∧
      SearchEnds (alexAlone.server.MatchesUser (· = ·) (some alex) none) alexAlone.server
        (some alex) none true := by
  constructor
  · refine ((getUserInfo_addUser_iff smallLayout alexAlone _ _).2.2 _ ?_).mpr ?_
    · intro u hu
      cases hu
      decide
    · refine fun _ _ => ⟨fun _ u hu => ?_, fun _ _ _ _ h0 => ?_⟩
      · rw [show alexAlone.server.userList.find? (alexAlone.server.StopsAt _) = none by
          decide] at hu
        cases hu
      · exact absurd h0 (by decide)
  · refine ((getUserInfo_addUser_iff smallLayout alexAlone _ _).1 true).mpr fun u hu => ?_
    have h0 : u = 0 := List.mem_singleton.mp (List.mem_of_find?_eq_some hu)
    rw [h0]
    exact ⟨⟨alex, rfl, rfl⟩, fun e he => by cases he⟩

/-- Another email for a known name: the calls do not return. -/
theorem not_getUserInfo_addUser :
    (∀ wanted, ¬ SearchEnds wanted alexAlone.server (some alex) (some otherEmail) true) ∧
      ¬ alexAlone.AddEnds smallLayout (some alex) (some otherEmail)
        ⟨⟨some 1, true, true⟩, true, true⟩ := by
  have hno : searchUsers alexAlone.server (some alex) (some otherEmail)
      alexAlone.server.userList = none := by decide
  constructor
  · rintro wanted ⟨rounds, s, hs, -⟩
    have hanswer := (getUserInfoWithin_spec hs).1
    rw [hno] at hanswer
    cases hanswer
  · rintro ⟨rounds, status, d', h, -⟩
    obtain ⟨s, hs, -⟩ := Option.bind_eq_some_iff.mp h
    have hanswer := (getUserInfoWithin_spec hs).1
    rw [hno] at hanswer
    cases hanswer

end MorningProjects.ELibrary
