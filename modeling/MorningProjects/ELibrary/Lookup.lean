import MorningProjects.ELibrary.Books
import MorningProjects.ELibrary.Friends
import MorningProjects.Library.FirstHit

/-!
# Lookup by name

Users, friends and books are looked up by the first name that starts with the
name asked for, and a shelf only as far as its books belong to users whose names
start with the host's. A lookup is exact unless a longer name stands before the
name itself, or the shelf is left too early. A registered user stays found, if
the name was not cut.
-/
namespace MorningProjects.ELibrary
open Library

/-! ### The three searches -/

instance (g : Server) (b : ℕ) (name : CString) : Decidable (NameStarts g b name) :=
  decidable_of_iff ((g.book b).any fun info => info.name.StartsWith name) <| by
    cases hb : g.book b <;> simp [NameStarts, hb]

/-- What `getBookByName` does at a book before it compares names. -/
def visitBook (g : Server) (host : Option ℕ) (b : ℕ) : Option Bool :=
  (g.book b).bind (searchesBook g host)

theorem getBookFrom_eq (g : Server) (host : Option ℕ) (bookName : CString) (bs : List ℕ) :
    getBookFrom g host bookName bs =
      searchFrom (visitBook g host) (NameStarts g · bookName) bs := by
  induction bs with
  | nil => rfl
  | cons b bs ih =>
    rw [getBookFrom, searchFrom, visitBook, ih]
    cases hb : g.book b with
    | none => rfl
    | some info =>
      have hiff : NameStarts g b bookName ↔ info.name.StartsWith bookName := by
        simp [NameStarts, hb]
      simp only [Option.bind_some, CString.strncmp_strlen, hiff]

theorem startsWith_of_eq {s t : CString} (h : s = t) : s.StartsWith t :=
  h ▸ s.startsWith_self

theorem nameStarts_of_named {g : Server} {b : ℕ} {name : CString} (h : Named g b name) :
    NameStarts g b name := by
  obtain ⟨info, hinfo, hname⟩ := h
  exact ⟨info, hinfo, startsWith_of_eq hname⟩

def Server.booksOf (g : Server) (host : Option ℕ) : List ℕ :=
  host.elim g.bookTotal.head fun h => (g.user h).books

theorem getUserInfo_exact_iff (g : Server) (username : CString) :
    AnswersExactly (fun u => (g.user u).username = username) g.userList
        (getUserInfo g username none) ↔
      NoFalseHitFirst (fun u => (g.user u).username.StartsWith username)
        (fun u => (g.user u).username = username) g.userList := by
  rw [getUserInfo_eq]
  exact answersExactly_find?_iff (fun u => startsWith_of_eq) g.userList

theorem getFrdInfo_exact_iff (g : Server) (host : ℕ) (frdName : CString) :
    AnswersExactly (fun f => (g.user f).username = frdName) (g.user host).friends
        (some (getFrdInfo g host frdName)) ↔
      NoFalseHitFirst (fun f => (g.user f).username.StartsWith frdName)
        (fun f => (g.user f).username = frdName) (g.user host).friends := by
  rw [getFrdInfo_eq]
  exact answersExactly_find?_iff (fun f => startsWith_of_eq) (g.user host).friends

theorem getBookByName_exact_iff (g : Server) (host : Option ℕ) (bookName : CString) :
    AnswersExactly (Named g · bookName) (g.booksOf host) (getBookByName g host bookName) ↔
      ReachesWanted (visitBook g host) (NameStarts g · bookName) (Named g · bookName)
        (g.booksOf host) := by
  rw [getBookByName, getBookFrom_eq]
  exact answersExactly_searchFrom_iff (fun b => nameStarts_of_named) (g.booksOf host)

/-! ### What the calls do to users -/

structure KeepsUsers (g g' : Server) : Prop where
  userList : g.userList <+: g'.userList
  username : ∀ u ∈ g.userList, (g'.user u).username = (g.user u).username

theorem KeepsUsers.refl (g : Server) : KeepsUsers g g := ⟨List.prefix_refl _, fun _ _ => rfl⟩

theorem KeepsUsers.trans {g g' g'' : Server} (h : KeepsUsers g g') (h' : KeepsUsers g' g'') :
    KeepsUsers g g'' := by
  refine ⟨h.userList.trans h'.userList, fun u hu => ?_⟩
  rw [h'.username u (h.userList.subset hu), h.username u hu]

theorem keepsUsers_setUser {g : Server} {u : ℕ} {info : UserInfo}
    (h : info.username = (g.user u).username) : KeepsUsers g (g.setUser u info) := by
  refine ⟨List.prefix_refl _, fun v _ => ?_⟩
  by_cases hv : v = u
  · rw [hv, setUser_user_self, h]
  · rw [setUser_user_of_ne g hv]

theorem keepsUsers_setBook (g : Server) (b : ℕ) (info : BookInfo) :
    KeepsUsers g (g.setBook b info) := ⟨List.prefix_refl _, fun _ _ => rfl⟩

theorem addPrivate_cases {g g' : Server} {owner b : ℕ} (h : addPrivate g owner b = some g') :
    KeepsUsers g g' ∧ g'.book = g.book ∧ g'.bookTotal = g.bookTotal := by
  rw [addPrivate] at h
  split_ifs at h
  · cases h
    exact ⟨keepsUsers_setUser rfl, rfl, rfl⟩
  · cases hbooks : (g.user owner).books with
    | nil =>
      rw [hbooks] at h
      cases h
    | cons first rest =>
      rw [hbooks] at h
      cases h
      exact ⟨keepsUsers_setUser rfl, rfl, rfl⟩

theorem addPublic_cases {g g' : Server} {b : ℕ} (h : addPublic g b = some g') :
    KeepsUsers g g' ∧ g'.book = g.book ∧
      (g'.bookTotal.head = [b] ∨ g'.bookTotal.head = g.bookTotal.head ++ [b]) := by
  have hrefl : KeepsUsers g { g with bookTotal := g'.bookTotal } :=
    ⟨List.prefix_refl _, fun _ _ => rfl⟩
  rw [addPublic] at h
  split_ifs at h
  · cases h
    exact ⟨hrefl, rfl, .inl rfl⟩
  · cases h
    exact ⟨hrefl, rfl, .inr rfl⟩

/-- `addBook` changes nothing, or writes the record of a book whose name it did not find and
lists it as the only book, as the last one, or not at all. -/
theorem addBook_cases {g g' : Server} {owner : Option ℕ} {bookName bookDesp : Option CString}
    {bookGroup : Option ℕ} {malloc : BookMallocs} {status : SystemStatus}
    (h : addBook g owner bookName bookDesp bookGroup malloc = some (status, g')) :
    g' = g ∨ ∃ o name b, bookName = some name ∧ malloc.bookAdded = some b ∧
      getBookByName g none name = some none ∧ name.strlen ≤ maxBookNameLength ∧
      KeepsUsers g g' ∧ g'.book = Function.update g.book b (some (newBookInfo o name)) ∧
      (g'.bookTotal = g.bookTotal ∨ g'.bookTotal.head = [b] ∨
        g'.bookTotal.head = g.bookTotal.head ++ [b]) := by
  cases owner with
  | none =>
    cases h
    exact .inl rfl
  | some o =>
    cases bookName with
    | none =>
      cases h
      exact .inl rfl
    | some name =>
      rw [addBook] at h
      obtain ⟨found, hfound, h⟩ := Option.bind_eq_some_iff.mp h
      cases found with
      | some c =>
        cases h
        exact .inl rfl
      | none =>
        cases hb : malloc.bookAdded with
        | none =>
          simp only [hb] at h
          split_ifs at h
          cases h
          exact .inl rfl
        | some b =>
          simp only [hb] at h
          by_cases hlong : maxBookNameLength < name.strlen
          · rw [if_pos hlong] at h
            cases h
          rw [if_neg hlong] at h
          have hrecord := keepsUsers_setBook g b (newBookInfo o name)
          obtain ⟨g1, hprivate, h⟩ := Option.bind_eq_some_iff.mp h
          obtain ⟨g2, hpublic, h⟩ := Option.map_eq_some_iff.mp h
          cases h
          have h1 : KeepsUsers (g.setBook b (newBookInfo o name)) g1 ∧
              g1.book = (g.setBook b (newBookInfo o name)).book ∧
              g1.bookTotal = g.bookTotal := by
            split_ifs at hprivate
            · exact addPrivate_cases hprivate
            · cases hprivate
              exact ⟨KeepsUsers.refl _, rfl, rfl⟩
          have h2 : KeepsUsers g1 g' ∧ g'.book = g1.book ∧ (g'.bookTotal = g1.bookTotal ∨
              g'.bookTotal.head = [b] ∨ g'.bookTotal.head = g1.bookTotal.head ++ [b]) := by
            split_ifs at hpublic
            · obtain ⟨hkeeps, hbook, hhead⟩ := addPublic_cases hpublic
              exact ⟨hkeeps, hbook, .inr hhead⟩
            · cases hpublic
              exact ⟨KeepsUsers.refl _, rfl, .inl rfl⟩
          obtain ⟨hkeeps1, hbook1, htotal1⟩ := h1
          obtain ⟨hkeeps2, hbook2, htotal2⟩ := h2
          rw [htotal1] at htotal2
          exact .inr ⟨o, name, b, rfl, rfl, hfound, not_lt.mp hlong,
            hrecord.trans (hkeeps1.trans hkeeps2), by rw [hbook2, hbook1]; rfl, htotal2⟩

def KeepsTitles (g g' : Server) : Prop :=
  ∀ b info, g.book b = some info → ∃ info', g'.book b = some info' ∧ info'.name = info.name

theorem KeepsTitles.refl (g : Server) : KeepsTitles g g := fun _ info h => ⟨info, h, rfl⟩

theorem keepsTitles_update {g g' : Server} {b : ℕ} {info : BookInfo}
    (hbook : g'.book = Function.update g.book b (some info))
    (h : ∀ old, g.book b = some old → info.name = old.name) : KeepsTitles g g' := by
  intro c old hc
  rw [hbook]
  by_cases hcb : c = b
  · rw [hcb, Function.update_self]
    exact ⟨info, rfl, h old (hcb ▸ hc)⟩
  · rw [Function.update_of_ne hcb]
    exact ⟨old, hc, rfl⟩

/-- Counting down from 1 is what takes a book out of the library. No book is there: the
counter starts at 0. -/
def Server.NoneLast (g : Server) : Prop :=
  ∀ b info, g.book b = some info → info.countCollected ≠ 1

theorem uncollect_cases {g g' : Server} {b : ℕ} {bookName : CString}
    (h : uncollect g b bookName = some g') :
    KeepsUsers g g' ∧ (g.NoneLast → KeepsTitles g g' ∧ g'.bookTotal = g.bookTotal) := by
  rw [uncollect] at h
  obtain ⟨info, hinfo, h⟩ := Option.bind_eq_some_iff.mp h
  dsimp only at h
  split_ifs at h with h0
  · obtain ⟨head, -, rfl⟩ := Option.map_eq_some_iff.mp h
    refine ⟨⟨List.prefix_refl _, fun _ _ => rfl⟩, fun hlast => ?_⟩
    have h1 := congrArg (· + 1) h0
    rw [UInt32.sub_add_cancel] at h1
    exact absurd h1 (hlast b info hinfo)
  · cases h
    refine ⟨⟨List.prefix_refl _, fun _ _ => rfl⟩, fun _ => ⟨?_, rfl⟩⟩
    refine keepsTitles_update rfl fun old hold => ?_
    rw [hinfo] at hold
    cases hold
    rfl

/-- `rmBook` leaves users as they are, and the library while no book is the last of its name. -/
theorem rmBook_cases {g g' : Server} {host : Option ℕ} {bookName : Option CString}
    {status : SystemStatus} (h : rmBook g host bookName = some (status, g')) :
    KeepsUsers g g' ∧ (g.NoneLast → KeepsTitles g g' ∧ g'.bookTotal = g.bookTotal) := by
  have hself : KeepsUsers g g ∧ (g.NoneLast → KeepsTitles g g ∧ g.bookTotal = g.bookTotal) :=
    ⟨KeepsUsers.refl g, fun _ => ⟨KeepsTitles.refl g, rfl⟩⟩
  cases host with
  | none =>
    cases h
    exact hself
  | some host =>
    cases bookName with
    | none =>
      cases h
      exact hself
    | some name =>
      rw [rmBook] at h
      obtain ⟨found, hfound, h⟩ := Option.bind_eq_some_iff.mp h
      cases found with
      | none =>
        cases h
        exact hself
      | some b =>
        obtain ⟨g1, h1, h⟩ := Option.bind_eq_some_iff.mp h
        obtain ⟨books, -, h⟩ := Option.map_eq_some_iff.mp h
        cases h
        obtain ⟨hkeeps, hlibrary⟩ := uncollect_cases h1
        exact ⟨hkeeps.trans (keepsUsers_setUser rfl), hlibrary⟩

/-! ### What is found stays found -/

section Step

variable {layout : UserLayout} {g g' : Server} {op : BookOp}

theorem bookStep_keepsUsers (hpermit : g.PermitsBook op)
    (h : bookStep layout g op = some g') : KeepsUsers g g' := by
  cases op with
  | addUser userName email malloc =>
    obtain ⟨⟨status, g'⟩, hadd, rfl⟩ := Option.map_eq_some_iff.mp h
    rcases addUser_cases hadd with rfl | ⟨u, hu, -, hlist, huser⟩
    · exact KeepsUsers.refl _
    · refine ⟨?_, fun v hv => ?_⟩
      · rcases hlist with hlist | hlist
        · rw [hlist]
        · rw [hlist]
          exact List.prefix_append _ _
      · change (g'.user v).username = _
        have hne : v ≠ u := fun heq => hpermit u hu (heq ▸ hv)
        rw [huser, Function.update_of_ne hne]
  | addBook owner bookName bookDesp bookGroup malloc =>
    obtain ⟨⟨status, g'⟩, hadd, rfl⟩ := Option.map_eq_some_iff.mp h
    rcases addBook_cases hadd with rfl | ⟨o, name, b, -, -, -, -, hkeeps, -, -⟩
    · exact KeepsUsers.refl _
    · exact hkeeps
  | rmBook host bookName =>
    obtain ⟨⟨status, g'⟩, hrm, rfl⟩ := Option.map_eq_some_iff.mp h
    exact (rmBook_cases hrm).1

theorem KeepsUsers.getUserInfo (h : KeepsUsers g g') {username : CString} {u : ℕ}
    (hu : getUserInfo g username none = some (some u)) :
    ELibrary.getUserInfo g' username none = some (some u) := by
  rw [getUserInfo_eq] at hu ⊢
  obtain ⟨new, hnew⟩ := h.userList
  have hsame : g.userList.find? (fun v => (g'.user v).username.StartsWith username) =
      g.userList.find? (fun v => (g.user v).username.StartsWith username) := by
    refine List.find?_congr fun v hv => ?_
    rw [h.username v hv]
  rw [← hnew, List.find?_append, hsame, Option.some.inj hu]
  rfl

/-- The condition on a call: a removal finds no book that is the last of its name. -/
def Server.KeepsListed (g : Server) : BookOp → Prop
  | .rmBook _ _ => g.NoneLast
  | .addUser _ _ _ | .addBook _ _ _ _ _ => True

theorem bookStep_keepsLibrary (hpermit : g.PermitsBook op) (hlisted : g.KeepsListed op)
    (h : bookStep layout g op = some g') :
    KeepsTitles g g' ∧ (g'.bookTotal.head = g.bookTotal.head ∨ ∃ b, g.book b = none ∧
      (g'.bookTotal.head = [b] ∨ g'.bookTotal.head = g.bookTotal.head ++ [b])) := by
  cases op with
  | addUser userName email malloc =>
    obtain ⟨⟨status, g'⟩, hadd, rfl⟩ := Option.map_eq_some_iff.mp h
    obtain ⟨hbook, htotal⟩ := addUser_library hadd
    refine ⟨fun b info hb => ⟨info, ?_, rfl⟩, .inl (congrArg BookTotal.head htotal)⟩
    change g'.book b = _
    rw [hbook, hb]
  | addBook owner bookName bookDesp bookGroup malloc =>
    obtain ⟨⟨status, g'⟩, hadd, rfl⟩ := Option.map_eq_some_iff.mp h
    rcases addBook_cases hadd with rfl | ⟨o, name, b, -, hb, -, -, -, hbook, htotal⟩
    · exact ⟨KeepsTitles.refl _, .inl rfl⟩
    · have hfree : g.book b = none := hpermit.2 b hb
      refine ⟨keepsTitles_update hbook fun old hold => ?_, ?_⟩
      · rw [hfree] at hold
        cases hold
      · rcases htotal with htotal | hhead
        · exact .inl (congrArg BookTotal.head htotal)
        · exact .inr ⟨b, hfree, hhead⟩
  | rmBook host bookName =>
    obtain ⟨⟨status, g'⟩, hrm, rfl⟩ := Option.map_eq_some_iff.mp h
    obtain ⟨htitles, htotal⟩ := (rmBook_cases hrm).2 hlisted
    exact ⟨htitles, .inl (congrArg BookTotal.head htotal)⟩

theorem visitBook_none (b : ℕ) : visitBook g none b = (g.book b).map fun _ => true := by
  cases hb : g.book b <;> simp [visitBook, searchesBook, hb]

/-- The search of the library reads records and names only. -/
theorem KeepsTitles.getBookFrom (h : KeepsTitles g g') {bookName : CString} {bs : List ℕ}
    {found : Option ℕ} (hfound : getBookFrom g none bookName bs = some found) :
    ELibrary.getBookFrom g' none bookName bs = some found := by
  induction bs with
  | nil => exact hfound
  | cons b bs ih =>
    rw [ELibrary.getBookFrom] at hfound ⊢
    obtain ⟨info, hinfo, hfound⟩ := Option.bind_eq_some_iff.mp hfound
    obtain ⟨info', hinfo', hname⟩ := h b info hinfo
    rw [hinfo', Option.bind_some, hname]
    simp only [searchesBook, Option.bind_some, Bool.true_eq_false, if_false] at hfound ⊢
    split_ifs at hfound ⊢ with hhit
    · exact hfound
    · exact ih hfound

end Step

/-! ### New users and new books -/

section Added

variable {layout : UserLayout} {g g' : Server} {name : CString} {u b : ℕ}

/-- The new user has a name of its own, and its name finds it after every further run. -/
def RegistersAs (layout : UserLayout) (g g' : Server) (name : CString) (u : ℕ) : Prop :=
  (∀ v ∈ g.userList, (g.user v).username ≠ (g'.user u).username) ∧
    ∀ ops g'', Along (bookStep layout) Server.PermitsBook g' ops →
      runFrom (bookStep layout) g' ops = some g'' →
      getUserInfo g'' name none = some (some u)

/-- The new book has a name of its own, and its name finds it after every further run, as
long as it is listed. -/
def PublishesAs (layout : UserLayout) (g g' : Server) (name : CString) (b : ℕ) : Prop :=
  (∀ c ∈ g.bookTotal.head, ¬ Named g c name) ∧
    ∀ ops g'', Along (bookStep layout) (fun g op => g.PermitsBook op ∧ g.KeepsListed op)
        g' ops →
      runFrom (bookStep layout) g' ops = some g'' → b ∈ g''.bookTotal.head →
      getBookByName g'' none name = some (some b)

theorem not_startsWith_of_getUserInfoFrom {email : Option CString} {us : List ℕ}
    (h : getUserInfoFrom g name email us = some none) :
    ∀ u ∈ us, ¬ (g.user u).username.StartsWith name := by
  induction us with
  | nil => exact fun u hu => by cases hu
  | cons u us ih =>
    rw [getUserInfoFrom.eq_def] at h
    dsimp only at h
    split_ifs at h with hu
    · cases email with
      | none => cases h
      | some e =>
        dsimp only at h
        split_ifs at h
        cases h
    · exact List.forall_mem_cons.mpr ⟨mt CString.strncmp_strlen.mpr hu, ih h⟩

/-- A name that is not cut is registered once, and finds its user. -/
theorem registersAs_iff {email : CString} {malloc : UserMallocs} {status : SystemStatus}
    (hfresh : u ∉ g.userList) (hu : malloc.newUser = some u)
    (hadd : addUser layout g name email malloc = some (status, g'))
    (hlist : g'.userList = g.userList ++ [u]) :
    RegistersAs layout g g' name u ↔ name.strlen ≤ maxNameLength := by
  rcases addUser_cases hadd with rfl | ⟨v, hv, hfound, -, huser⟩
  · exact absurd (hlist ▸ List.mem_append_right _ (List.mem_singleton_self u)) hfresh
  obtain rfl : u = v := Option.some.inj (hu.symm.trans hv)
  have hname : (g'.user u).username = name.strncpy maxNameLength := by
    rw [huser, Function.update_self, newUserInfo_username]
  have hno := not_startsWith_of_getUserInfoFrom hfound
  constructor
  · rintro ⟨-, hstays⟩
    have hget := hstays [] g' trivial rfl
    rw [getUserInfo_eq] at hget
    have hstarts := List.find?_some (Option.some.inj hget)
    rw [hname] at hstarts
    have hle := (of_decide_eq_true hstarts).length_le
    rw [CString.bytes_strncpy, List.length_take] at hle
    exact le_trans hle (min_le_left _ _)
  · intro hle
    rw [CString.strncpy_of_le hle] at hname
    refine ⟨fun v hv heq => hno v hv (startsWith_of_eq (heq.trans hname)), ?_⟩
    intro ops g'' hpermit hrun
    have hget : getUserInfo g' name none = some (some u) := by
      rw [getUserInfo_eq, hlist, List.find?_append]
      have hnone : g.userList.find? (fun v => (g'.user v).username.StartsWith name) = none := by
        refine List.find?_eq_none.mpr fun v hv => ?_
        have hne : v ≠ u := fun heq => hfresh (heq ▸ hv)
        rw [huser, Function.update_of_ne hne]
        simpa using hno v hv
      rw [hnone, Option.none_or, List.find?_singleton, hname]
      simp [name.startsWith_self]
    have hstep : ∀ g op g', getUserInfo g name none = some (some u) → g.PermitsBook op →
        bookStep layout g op = some g' → getUserInfo g' name none = some (some u) :=
      fun g op g' hget hpermit h => (bookStep_keepsUsers hpermit h).getUserInfo hget
    exact runFrom_invariant hstep hget hpermit hrun

def Server.BookFound (name : CString) (b : ℕ) (g : Server) : Prop :=
  (∃ info, g.book b = some info) ∧
    (b ∈ g.bookTotal.head → getBookByName g none name = some (some b))

theorem Server.BookFound.step (h : g.BookFound name b) {op : BookOp}
    (hop : g.PermitsBook op ∧ g.KeepsListed op) (hg : bookStep layout g op = some g') :
    g'.BookFound name b := by
  obtain ⟨⟨info, hinfo⟩, hfound⟩ := h
  obtain ⟨htitles, htotal⟩ := bookStep_keepsLibrary hop.1 hop.2 hg
  refine ⟨?_, fun hmem => ?_⟩
  · obtain ⟨info', hinfo', -⟩ := htitles b info hinfo
    exact ⟨info', hinfo'⟩
  have hne : ∀ c, g.book c = none → b ≠ c := by
    rintro c hc rfl
    rw [hinfo] at hc
    cases hc
  rw [getBookByName, Option.elim_none]
  rcases htotal with hhead | ⟨c, hc, hhead | hhead⟩
  · rw [hhead] at hmem ⊢
    exact htitles.getBookFrom (hfound hmem)
  · rw [hhead] at hmem
    exact absurd (List.mem_singleton.mp hmem) (hne c hc)
  · rw [hhead] at hmem ⊢
    have hmem : b ∈ g.bookTotal.head := by
      rcases List.mem_append.mp hmem with hmem | hmem
      · exact hmem
      · exact absurd (List.mem_singleton.mp hmem) (hne c hc)
    have hget := htitles.getBookFrom (hfound hmem)
    rw [getBookFrom_eq] at hget ⊢
    exact searchFrom_append hget [c]

/-- A book is added only under a name that fits its field and that no listed book has, and is
found by it. -/
theorem publishesAs_of_addBook {owner : Option ℕ} {bookDesp : Option CString}
    {bookGroup : Option ℕ} {malloc : BookMallocs} {status : SystemStatus}
    (hfresh : g.book b = none) (hnew : b ∉ g.bookTotal.head) (hb : malloc.bookAdded = some b)
    (hadd : addBook g owner (some name) bookDesp bookGroup malloc = some (status, g'))
    (hlist : b ∈ g'.bookTotal.head) :
    name.strlen ≤ maxBookNameLength ∧ PublishesAs layout g g' name b := by
  rcases addBook_cases hadd with rfl | ⟨o, name', b', hname, hb', hfound, hlong, -, hbook, htotal⟩
  · exact absurd hlist hnew
  obtain rfl := Option.some.inj hname
  obtain rfl : b = b' := Option.some.inj (hb.symm.trans hb')
  have hgo : ∀ c ∈ g.bookTotal.head, visitBook g none c ≠ some false := by
    intro c _
    rw [visitBook_none]
    cases g.book c <;> simp
  rw [getBookByName, Option.elim_none, getBookFrom_eq] at hfound
  have hno := not_hit_of_searchFrom hgo hfound
  refine ⟨hlong, fun c hc hnamed => (hno c hc).2 (nameStarts_of_named hnamed), ?_⟩
  have htitles : KeepsTitles g g' := keepsTitles_update hbook fun old hold => by
    rw [hfresh] at hold
    cases hold
  have hself : g'.book b = some (newBookInfo o name) := by
    rw [hbook, Function.update_self]
  have hone : getBookFrom g' none name [b] = some (some b) := by
    have hstarts : name.StartsWith name := name.startsWith_self
    simp [getBookFrom, hself, searchesBook, newBookInfo, hstarts]
  have hget : getBookByName g' none name = some (some b) := by
    rw [getBookByName, Option.elim_none]
    rcases htotal with htotal | hhead | hhead
    · rw [htotal] at hlist
      exact absurd hlist hnew
    · rw [hhead, hone]
    · rw [hhead, getBookFrom_eq, searchFrom_append_of_not_hit, ← getBookFrom_eq, hone]
      intro c hc
      have hne : c ≠ b := fun heq => hnew (heq ▸ hc)
      have hsame : g'.book c = g.book c := by rw [hbook, Function.update_of_ne hne]
      have hc := hno c hc
      rw [visitBook_none] at hc ⊢
      rwa [NameStarts, hsame]
  intro ops g'' hops hrun
  have hstep : ∀ g op g', g.BookFound name b → g.PermitsBook op ∧ g.KeepsListed op →
      bookStep layout g op = some g' → g'.BookFound name b :=
    fun g op g' h hop hg => h.step hop hg
  exact (runFrom_invariant hstep ⟨⟨_, hself⟩, fun _ => hget⟩ hops hrun).2

end Added

/-- The lookups in a server with any users and books are exact just when no longer name, and
no early end of a shelf, stands in the way of the name asked for. A user that is added gets a
name of its own that finds it just when the name fits its field, and so does a book, which is not
added otherwise. -/
theorem lookup_exact_iff (layout : UserLayout) (g : Server) (name : CString) :
    (AnswersExactly (fun u => (g.user u).username = name) g.userList
        (getUserInfo g name none) ↔
      NoFalseHitFirst (fun u => (g.user u).username.StartsWith name)
        (fun u => (g.user u).username = name) g.userList) ∧
    (∀ host, AnswersExactly (fun f => (g.user f).username = name) (g.user host).friends
        (some (getFrdInfo g host name)) ↔
      NoFalseHitFirst (fun f => (g.user f).username.StartsWith name)
        (fun f => (g.user f).username = name) (g.user host).friends) ∧
    (∀ host, AnswersExactly (Named g · name) (g.booksOf host) (getBookByName g host name) ↔
      ReachesWanted (visitBook g host) (NameStarts g · name) (Named g · name)
        (g.booksOf host)) ∧
    (∀ email malloc status g' u, malloc.newUser = some u → u ∉ g.userList →
      addUser layout g name email malloc = some (status, g') →
      g'.userList = g.userList ++ [u] →
      (RegistersAs layout g g' name u ↔ name.strlen ≤ maxNameLength)) ∧
    (∀ owner bookDesp bookGroup malloc status g' b, malloc.bookAdded = some b →
      g.book b = none → b ∉ g.bookTotal.head →
      addBook g owner (some name) bookDesp bookGroup malloc = some (status, g') →
      b ∈ g'.bookTotal.head →
      name.strlen ≤ maxBookNameLength ∧ PublishesAs layout g g' name b) := by
  refine ⟨getUserInfo_exact_iff g name, fun host => getFrdInfo_exact_iff g host name,
    fun host => getBookByName_exact_iff g host name, ?_, ?_⟩
  · intro email malloc status g' u hu hfresh hadd hlist
    exact registersAs_iff hfresh hu hadd hlist
  · intro owner bookDesp bookGroup malloc status g' b hb hfresh hnew hadd hlist
    exact publishesAs_of_addBook hfresh hnew hb hadd hlist

def alexander : CString := ⟨[65, 108, 101, 120, 97, 110, 100, 101, 114], by decide⟩

/-- A user, and another one whose name begins with the first one's. -/
theorem lookup_exact_iff_example :
    ∃ g g', runFrom (bookStep smallLayout) Server.init [.addUser alex dune ⟨some 0, true, true⟩] =
        some g ∧
      addUser smallLayout g alexander emma ⟨some 1, true, true⟩ = some (.ok, g') ∧
      AnswersExactly (fun u => (g'.user u).username = alex) g'.userList
        (getUserInfo g' alex none) ∧
      RegistersAs smallLayout g g' alexander 1 := by
  refine ⟨_, _, rfl, rfl, ?_, ?_⟩
  · refine (lookup_exact_iff smallLayout _ alex).1.mpr ?_
    exact noFalseHitFirst_cons.mpr ⟨fun _ => rfl, fun hno => absurd rfl hno⟩
  · refine ((lookup_exact_iff smallLayout _ alexander).2.2.2.1 emma ⟨some 1, true, true⟩ .ok _ 1 rfl
      ?_ rfl rfl).mpr ?_
    · decide
    · decide

/-- The name of the only user begins with the name asked for. -/
theorem lookup_not_exact :
    ∃ g, runFrom (bookStep smallLayout) Server.init
        [.addUser alexander dune ⟨some 0, true, true⟩] = some g ∧
      ¬ AnswersExactly (fun u => (g.user u).username = alex) g.userList
        (getUserInfo g alex none) := by
  refine ⟨_, rfl, ?_⟩
  rintro ⟨-, hname⟩
  exact absurd hname (by decide)

end MorningProjects.ELibrary
