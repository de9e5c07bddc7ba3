import MorningProjects.ELibrary.Directory
import MorningProjects.Library.Runs

/-!
# Books

A book is on the shelf of its owner and in the list of all books. `addBook` links
every later book of an owner right behind the first one, `countCollected` is only
ever decremented, and names are compared over the length of the name asked for. A
run keeps shelves and library in step as long as no call depends on these.
-/
namespace MorningProjects.ELibrary
open Library

/-- Whether the search goes on to the name of a book: on a shelf, only while the owner's
name starts with the host's. -/
def searchesBook (g : Server) (host : Option ℕ) (info : BookInfo) : Option Bool :=
  match host with
  | none => some true
  | some h => info.owner.map fun o =>
      (g.user o).username.strncmp (g.user h).username (g.user h).username.strlen = 0

/-- The loop of `getBookByName`. -/
def getBookFrom (g : Server) (host : Option ℕ) (bookName : CString) :
    List ℕ → Option (Option ℕ)
  | [] => some none
  | b :: bs =>
    (g.book b).bind fun info =>
      (searchesBook g host info).bind fun searches =>
        if searches = false then some none
        else if info.name.strncmp bookName bookName.strlen = 0 then some (some b)
        else getBookFrom g host bookName bs

def getBookByName (g : Server) (host : Option ℕ) (bookName : CString) : Option (Option ℕ) :=
  getBookFrom g host bookName (host.elim g.bookTotal.head fun h => (g.user h).books)

structure BookMallocs where
  bookAdded : Option ℕ
  newNodePrivate : Bool
  newNodePublic : Bool

def newBookInfo (owner : ℕ) (bookName : CString) : BookInfo :=
  ⟨bookName, some owner, 0, [], 0, [], 0⟩

/-- `addBook` links the private node of a new book. -/
def addPrivate (g : Server) (owner b : ℕ) : Option Server :=
  let info := g.user owner
  if info.numBooks = 0 then
    some (g.setUser owner { info with books := [b], numBooks := info.numBooks + 1 })
  else
    -- the node goes behind the first one, in place of what was there
    match info.books with
    | [] => none
    | first :: _ =>
      some (g.setUser owner { info with books := [first, b], numBooks := info.numBooks + 1 })

def addPublic (g : Server) (b : ℕ) : Option Server :=
  let total := g.bookTotal
  if total.numBooks = 0 then
    some { g with bookTotal := ⟨[b], some b, total.numBooks + 1⟩ }
  else if total.tail.isSome ∧ total.head.getLast? = total.tail then
    some { g with bookTotal := ⟨total.head ++ [b], some b, total.numBooks + 1⟩ }
  else none

def addBook (g : Server) (owner : Option ℕ) (bookName bookDesp : Option CString)
    (bookGroup : Option ℕ) (malloc : BookMallocs) : Option (SystemStatus × Server) :=
  match owner, bookName with
  | some o, some name =>
    (getBookByName g none name).bind fun found =>
      match found with
      | some _ => some (.ok, g)
      | none =>
        match malloc.bookAdded with
        | none =>
          -- group and description are read and written through NULL
          if bookGroup.isSome ∨ bookDesp.isSome then none else some (.ok, g)
        | some b =>
          -- the zeroed `desp` behind `name` terminates a title that fills it
          if maxBookNameLength < name.strlen then none
          else
            let g := { g with book := Function.update g.book b (some (newBookInfo o name)) }
            (if malloc.newNodePrivate then addPrivate g o b else some g).bind fun g =>
              (if malloc.newNodePublic then addPublic g b else some g).map fun g => (.ok, g)
  | _, _ => some (.fail, g)

/-- The loop of `detechBookNode`, with the nodes already passed: the books left. -/
def detechBookFrom (g : Server) (bookName : CString) (passed : List ℕ) :
    List ℕ → Option (List ℕ)
  | [] => some passed
  | b :: bs =>
    (g.book b).bind fun info =>
      if info.name.strncmp bookName bookName.strlen = 0 then
        some (if passed = [] then [] else passed ++ bs)
      else detechBookFrom g bookName (passed ++ [b]) bs

/-- `rmBook` counts down and takes the book out of the library, or clears its owner. -/
def uncollect (g : Server) (b : ℕ) (bookName : CString) : Option Server :=
  (g.book b).bind fun info =>
    let info := { info with countCollected := info.countCollected - 1 }
    if info.countCollected = 0 then
      (detechBookFrom g bookName [] g.bookTotal.head).map fun head =>
        { g with
          book := Function.update g.book b none
          bookTotal := ⟨head, g.bookTotal.tail, g.bookTotal.numBooks - 1⟩ }
    else some { g with book := Function.update g.book b (some { info with owner := none }) }

def rmBook (g : Server) (host : Option ℕ) (bookName : Option CString) :
    Option (SystemStatus × Server) :=
  match host, bookName with
  | some h, some name =>
    (getBookByName g (some h) name).bind fun found =>
      match found with
      | none => some (.ok, g)
      | some b =>
        (uncollect g b name).bind fun g =>
          (detechBookFrom g name [] (g.user h).books).map fun books =>
            (.ok, g.setUser h
              { g.user h with books := books, numBooks := (g.user h).numBooks - 1 })
  | _, _ => some (.fail, g)

def Named (g : Server) (b : ℕ) (name : CString) : Prop :=
  ∃ info, g.book b = some info ∧ info.name = name

def NameStarts (g : Server) (b : ℕ) (name : CString) : Prop :=
  ∃ info, g.book b = some info ∧ info.name.StartsWith name

/-- A search over records that exist and have owners ends. -/
theorem getBookFrom_exists {g : Server} {bs : List ℕ}
    (hbs : ∀ b ∈ bs, ∃ info, g.book b = some info ∧ info.owner.isSome)
    (host : Option ℕ) (bookName : CString) :
    ∃ found, getBookFrom g host bookName bs = some found ∧
      ((∀ b ∈ bs, ¬ NameStarts g b bookName) → found = none) ∧
      (found = none → host = none → ∀ b ∈ bs, ¬ NameStarts g b bookName) := by
  induction bs with
  | nil => exact ⟨none, rfl, fun _ => rfl, fun _ _ b hb => by cases hb⟩
  | cons b bs ih =>
    obtain ⟨found, hfound, hnone, hall⟩ := ih fun c hc => hbs c (List.mem_cons_of_mem b hc)
    obtain ⟨info, hinfo, howner⟩ := hbs b List.mem_cons_self
    have hsearch : ∃ searches, searchesBook g host info = some searches ∧
        (host = none → searches = true) := by
      cases host with
      | none => exact ⟨true, rfl, fun _ => rfl⟩
      | some h =>
        obtain ⟨o, ho⟩ := Option.isSome_iff_exists.mp howner
        exact ⟨_, by rw [searchesBook, ho]; rfl, fun hno => by cases hno⟩
    obtain ⟨searches, hsearches, htrue⟩ := hsearch
    rw [getBookFrom, hinfo, Option.bind_some, hsearches, Option.bind_some]
    by_cases hs : searches = false
    · refine ⟨none, if_pos hs, fun _ => rfl, ?_⟩
      intro _ hhost
      rw [htrue hhost] at hs
      cases hs
    · rw [if_neg hs]
      by_cases hname : info.name.StartsWith bookName
      · refine ⟨some b, by simp [hname], ?_, ?_⟩
        · intro h
          exact (h b List.mem_cons_self ⟨info, hinfo, hname⟩).elim
        · intro h
          cases h
      · refine ⟨found, by simp [hname, hfound], ?_, ?_⟩
        · intro h
          exact hnone fun c hc => h c (List.mem_cons_of_mem b hc)
        · intro h hhost c hc
          rcases List.mem_cons.mp hc with rfl | hc
          · rintro ⟨info', hinfo', hstarts⟩
            rw [hinfo] at hinfo'
            cases hinfo'
            exact hname hstarts
          · exact hall h hhost c hc

/-! ### Runs -/

inductive BookOp where
  | addUser (userName email : CString) (malloc : UserMallocs)
  | addBook (owner : Option ℕ) (bookName bookDesp : Option CString) (bookGroup : Option ℕ)
      (malloc : BookMallocs)
  | rmBook (host : Option ℕ) (bookName : Option CString)

def bookStep (layout : UserLayout) (g : Server) : BookOp → Option Server
  | .addUser userName email malloc => (addUser layout g userName email malloc).map Prod.snd
  | .addBook owner bookName bookDesp bookGroup malloc =>
    (addBook g owner bookName bookDesp bookGroup malloc).map Prod.snd
  | .rmBook host bookName => (rmBook g host bookName).map Prod.snd

/-- New users and books get fresh records, and callers are registered users. -/
def Server.PermitsBook (g : Server) : BookOp → Prop
  | .addUser _ _ malloc => ∀ u, malloc.newUser = some u → u ∉ g.userList
  | .addBook owner _ _ _ malloc =>
    (∀ o, owner = some o → o ∈ g.userList) ∧
      ∀ b, malloc.bookAdded = some b → g.book b = none
  | .rmBook host _ => ∀ h, host = some h → h ∈ g.userList

/-- The condition on a call. The owner already has a book of exactly the name, or no book
of the library has a name that starts with it, the name fits its field, the owner has at
most one book, the counter has room and memory is there. And no book on the host's shelf
has a name that starts with the name to remove. -/
def Server.MeetsBook (g : Server) : BookOp → Prop
  | .addUser _ _ _ => True
  | .addBook (some o) (some name) _ _ malloc =>
    (∃ b ∈ (g.user o).books, Named g b name) ∨
      (∀ b ∈ g.bookTotal.head, ¬ NameStarts g b name) ∧ name.strlen ≤ maxBookNameLength ∧
        (g.user o).books.length ≤ 1 ∧ g.bookTotal.head.length + 1 < 2 ^ 32 ∧
        malloc.bookAdded.isSome ∧ malloc.newNodePrivate ∧ malloc.newNodePublic
  | .addBook _ _ _ _ _ => True
  | .rmBook (some h) (some name) => ∀ b ∈ (g.user h).books, ¬ NameStarts g b name
  | .rmBook _ _ => True

/-- Counters count, and every book on a shelf is in the library once. -/
structure Server.BooksInStep (g : Server) : Prop where
  shelf : ∀ u, (g.user u).numBooks.toNat = (g.user u).books.length
  total : g.bookTotal.numBooks.toNat = g.bookTotal.head.length
  once : ∀ u, ∀ b ∈ (g.user u).books, g.bookTotal.head.count b = 1

def KeepsBooks (g g' : Server) : Prop :=
  (∀ u, ∀ b ∈ (g.user u).books, b ∈ (g'.user u).books) ∧
    ∀ b ∈ g.bookTotal.head, b ∈ g'.bookTotal.head

/-- The named books leave the host's shelf and nothing else, and those that nobody else
has collected leave the library. -/
def TakesOff (g g' : Server) (h : ℕ) (name : CString) : Prop :=
  (∀ u b, b ∈ (g'.user u).books ↔ b ∈ (g.user u).books ∧ ¬ (u = h ∧ Named g b name)) ∧
    ∀ b, b ∈ g'.bookTotal.head ↔ b ∈ g.bookTotal.head ∧
      ¬ (b ∈ (g.user h).books ∧ Named g b name ∧ ∀ u ≠ h, b ∉ (g.user u).books)

def Server.BookCallMeets (g : Server) : BookOp → Prop
  | .addUser _ _ _ => True
  | .addBook (some o) (some name) bookDesp bookGroup malloc =>
    ∃ status g', addBook g (some o) (some name) bookDesp bookGroup malloc = some (status, g') ∧
      (status = .ok → (∃ b ∈ (g'.user o).books, Named g' b name) ∧ KeepsBooks g g')
  | .addBook _ _ _ _ _ => True
  | .rmBook (some h) (some name) =>
    ∃ status g', rmBook g (some h) (some name) = some (status, g') ∧ TakesOff g g' h name
  | .rmBook _ _ => True

structure Server.Shelved (g : Server) : Prop where
  shelf : ∀ u, (g.user u).numBooks.toNat = (g.user u).books.length
  total : g.bookTotal.numBooks.toNat = g.bookTotal.head.length
  tail : g.bookTotal.tail = g.bookTotal.head.getLast?
  nodup : g.bookTotal.head.Nodup
  shelved : ∀ u, ∀ b ∈ (g.user u).books, b ∈ g.bookTotal.head
  owned : ∀ b ∈ g.bookTotal.head, ∃ info, g.book b = some info ∧ info.owner.isSome
  registered : ∀ u, u ∉ g.userList → (g.user u).books = []

theorem shelved_init : Server.init.Shelved := by
  constructor
  · intro u
    rfl
  · rfl
  · rfl
  · exact List.nodup_nil
  · intro u b hb
    cases hb
  · intro b hb
    cases hb
  · intro u _
    rfl

theorem Server.Shelved.booksInStep {g : Server} (h : g.Shelved) : g.BooksInStep := by
  constructor
  · exact h.shelf
  · exact h.total
  · intro u b hb
    exact List.count_eq_one_of_mem h.nodup (h.shelved u b hb)

/-- The library only changes the shelf of one user, to books of the library. -/
theorem Server.Shelved.setUser {g : Server} (h : g.Shelved) {o : ℕ} {info : UserInfo}
    (hcount : info.numBooks.toNat = info.books.length)
    (hbooks : ∀ b ∈ info.books, b ∈ g.bookTotal.head)
    (ho : o ∉ g.userList → info.books = []) : (g.setUser o info).Shelved := by
  have huser : ∀ u, (g.setUser o info).user u = info ∧ u = o ∨
      (g.setUser o info).user u = g.user u ∧ u ≠ o := by
    intro u
    by_cases hu : u = o
    · exact .inl ⟨by rw [hu, setUser_user_self], hu⟩
    · exact .inr ⟨setUser_user_of_ne g hu info, hu⟩
  constructor
  · intro u
    rcases huser u with ⟨heq, -⟩ | ⟨heq, -⟩ <;> rw [heq]
    · exact hcount
    · exact h.shelf u
  · exact h.total
  · exact h.tail
  · exact h.nodup
  · intro u b hb
    rcases huser u with ⟨heq, -⟩ | ⟨heq, -⟩ <;> rw [heq] at hb
    · exact hbooks b hb
    · exact h.shelved u b hb
  · exact h.owned
  · intro u hu
    rcases huser u with ⟨heq, rfl⟩ | ⟨heq, -⟩ <;> rw [heq]
    · exact ho hu
    · exact h.registered u hu

theorem Server.Shelved.addUser {layout : UserLayout} {g g' : Server} (h : g.Shelved)
    {userName email : CString} {malloc : UserMallocs}
    (hpermit : g.PermitsBook (.addUser userName email malloc))
    (hg : bookStep layout g (.addUser userName email malloc) = some g') :
    g'.Shelved := by
  obtain ⟨⟨status, g'⟩, hadd, rfl⟩ := Option.map_eq_some_iff.mp hg
  obtain ⟨hbook, htotal⟩ := addUser_library hadd
  change g'.Shelved
  rcases addUser_cases hadd with rfl | ⟨u, hu, -, hlist, huser⟩
  · exact h
  · -- the new record has the shelf that nobody had at its address
    have hshelf : ∀ v, (g'.user v).books = (g.user v).books ∧
        (g'.user v).numBooks = (g.user v).numBooks := by
      intro v
      by_cases hv : v = u
      · have hnil := h.registered u (hpermit u hu)
        have hzero : (g.user u).numBooks = 0 := by
          rw [← UInt32.toNat_inj, h.shelf u, hnil]
          rfl
        rw [hv, huser, Function.update_self, hnil, hzero]
        exact ⟨rfl, rfl⟩
      · rw [huser, Function.update_of_ne hv]
        exact ⟨rfl, rfl⟩
    constructor
    · intro v
      rw [(hshelf v).1, (hshelf v).2]
      exact h.shelf v
    · rw [htotal]
      exact h.total
    · rw [htotal]
      exact h.tail
    · rw [htotal]
      exact h.nodup
    · intro v b hb
      rw [(hshelf v).1] at hb
      rw [htotal]
      exact h.shelved v b hb
    · intro b hb
      rw [htotal] at hb
      rw [hbook]
      exact h.owned b hb
    · intro v hv
      rw [(hshelf v).1]
      apply h.registered v
      intro hmem
      apply hv
      rcases hlist with hlist | hlist <;> rw [hlist]
      · exact hmem
      · exact List.mem_append_left [u] hmem

/-- Without a book of the name on the shelf, `rmBook` leaves everything as it is. -/
theorem Server.Shelved.rmBook_eq {g : Server} (h : g.Shelved) {host : ℕ} {name : CString}
    (hmeet : g.MeetsBook (.rmBook (some host) (some name))) :
    rmBook g (some host) (some name) = some (.ok, g) := by
  obtain ⟨found, hfound, hnone, -⟩ := getBookFrom_exists
    (fun b hb => h.owned b (h.shelved host b hb)) (some host) name
  have hget : getBookByName g (some host) name = some found := hfound
  rw [rmBook, hget, hnone hmeet]
  rfl

/-- The server with a new record, a book more in the library, and a book more on a shelf. -/
def Server.setBook (g : Server) (b : ℕ) (info : BookInfo) : Server :=
  { g with book := Function.update g.book b (some info) }

def Server.publish (g : Server) (b : ℕ) : Server :=
  { g with bookTotal := ⟨g.bookTotal.head ++ [b], some b, g.bookTotal.numBooks + 1⟩ }

def Server.shelve (g : Server) (o b : ℕ) : Server :=
  g.setUser o { g.user o with
    books := (g.user o).books ++ [b], numBooks := (g.user o).numBooks + 1 }

theorem Server.Shelved.setBook {g : Server} (h : g.Shelved) {b : ℕ} (hb : g.book b = none)
    (info : BookInfo) : (g.setBook b info).Shelved := by
  constructor
  · exact h.shelf
  · exact h.total
  · exact h.tail
  · exact h.nodup
  · exact h.shelved
  · intro c hc
    obtain ⟨i, hi, howner⟩ := h.owned c hc
    have hne : c ≠ b := by
      rintro rfl
      rw [hb] at hi
      cases hi
    refine ⟨i, ?_, howner⟩
    change Function.update g.book b (some info) c = some i
    rwa [Function.update_of_ne hne]
  · exact h.registered

theorem addPublic_eq {g : Server}
    (htotal : g.bookTotal.numBooks.toNat = g.bookTotal.head.length)
    (htail : g.bookTotal.tail = g.bookTotal.head.getLast?) (b : ℕ) :
    addPublic g b = some (g.publish b) := by
  rw [addPublic]
  by_cases hzero : g.bookTotal.numBooks = 0
  · have hnil : g.bookTotal.head = [] := by
      apply List.eq_nil_of_length_eq_zero
      rw [← htotal, hzero]
      rfl
    rw [if_pos hzero, Server.publish, hnil]
    rfl
  · have hsome : g.bookTotal.tail.isSome := by
      rw [htail, List.getLast?_isSome]
      intro hnil
      apply hzero
      rw [← UInt32.toNat_inj, htotal, hnil]
      rfl
    rw [if_neg hzero, if_pos ⟨hsome, htail.symm⟩]
    rfl

theorem addPrivate_eq {g : Server} {o : ℕ}
    (hcount : (g.user o).numBooks.toNat = (g.user o).books.length)
    (hone : (g.user o).books.length ≤ 1) (b : ℕ) :
    addPrivate g o b = some (g.shelve o b) := by
  rw [addPrivate]
  by_cases hzero : (g.user o).numBooks = 0
  · have hnil : (g.user o).books = [] := by
      apply List.eq_nil_of_length_eq_zero
      rw [← hcount, hzero]
      rfl
    rw [if_pos hzero, Server.shelve, hnil]
    rfl
  · rw [if_neg hzero, Server.shelve]
    cases hbooks : (g.user o).books with
    | nil =>
      rw [hbooks] at hcount
      exact (hzero (UInt32.toNat_inj.mp hcount)).elim
    | cons first rest =>
      rw [hbooks, List.length_cons] at hone
      have hrest : rest = [] := List.eq_nil_of_length_eq_zero (by omega)
      rw [hrest]
      rfl

theorem Server.Shelved.publish {g : Server} (h : g.Shelved) {b : ℕ} {info : BookInfo}
    (hnew : b ∉ g.bookTotal.head) (hb : g.book b = some info) (howner : info.owner.isSome)
    (hroom : g.bookTotal.head.length + 1 < 2 ^ 32) :
    (g.publish b).Shelved := by
  constructor
  · exact h.shelf
  · change (g.bookTotal.numBooks + 1).toNat = (g.bookTotal.head ++ [b]).length
    rw [toNat_succ (by rwa [h.total]), h.total, List.length_append]
    rfl
  · change some b = (g.bookTotal.head ++ [b]).getLast?
    rw [List.getLast?_concat]
  · change (g.bookTotal.head ++ [b]).Nodup
    rw [List.nodup_append]
    refine ⟨h.nodup, List.nodup_singleton b, ?_⟩
    rintro c hc c' hc' rfl
    exact hnew (List.mem_singleton.mp hc' ▸ hc)
  · intro u c hc
    exact List.mem_append_left [b] (h.shelved u c hc)
  · intro c hc
    rcases List.mem_append.mp hc with hc | hc
    · exact h.owned c hc
    · rw [List.mem_singleton.mp hc]
      exact ⟨info, hb, howner⟩
  · exact h.registered

theorem Server.Shelved.shelve {g : Server} (h : g.Shelved) {o b : ℕ} (ho : o ∈ g.userList)
    (hb : b ∈ g.bookTotal.head) (hone : (g.user o).books.length ≤ 1) : (g.shelve o b).Shelved := by
  apply h.setUser
  · change ((g.user o).numBooks + 1).toNat = ((g.user o).books ++ [b]).length
    have hcount := h.shelf o
    rw [toNat_succ (by omega), hcount, List.length_append]
    rfl
  · intro c hc
    rcases List.mem_append.mp hc with hc | hc
    · exact h.shelved o c hc
    · rwa [List.mem_singleton.mp hc]
  · intro hno
    exact (hno ho).elim

/-- `addBook` finds the book on the owner's shelf, or shelves a new one behind the others. -/
theorem Server.Shelved.addBook {g : Server} (h : g.Shelved) {o : ℕ} {name : CString}
    {bookDesp : Option CString} {bookGroup : Option ℕ} {malloc : BookMallocs}
    (hpermit : g.PermitsBook (.addBook (some o) (some name) bookDesp bookGroup malloc))
    (hmeet : g.MeetsBook (.addBook (some o) (some name) bookDesp bookGroup malloc)) :
    ∃ g', addBook g (some o) (some name) bookDesp bookGroup malloc = some (.ok, g') ∧
      g'.Shelved ∧ (∃ b ∈ (g'.user o).books, Named g' b name) ∧ KeepsBooks g g' := by
  have hfind := getBookFrom_exists h.owned none name
  obtain ⟨found, hfound, hnone, hall⟩ := hfind
  have hget : getBookByName g none name = some found := hfound
  rcases hmeet with ⟨b, hb, hnamed⟩ | ⟨hother, hlength, hone, hroom, hadded, hprivate, hpublic⟩
  · have hstarts : NameStarts g b name := by
      obtain ⟨info, hinfo, rfl⟩ := hnamed
      exact ⟨info, hinfo, info.name.startsWith_self⟩
    refine ⟨g, ?_, h, ⟨b, hb, hnamed⟩, fun _ _ hc => hc, fun _ hc => hc⟩
    cases found with
    | none => exact (hall rfl rfl b (h.shelved o b hb) hstarts).elim
    | some c =>
      rw [ELibrary.addBook, hget]
      rfl
  · obtain ⟨b, hb⟩ := Option.isSome_iff_exists.mp hadded
    have hfree : g.book b = none := hpermit.2 b hb
    have hnew : b ∉ g.bookTotal.head := by
      intro hmem
      obtain ⟨info, hinfo, -⟩ := h.owned b hmem
      rw [hfree] at hinfo
      cases hinfo
    have hbook := h.setBook hfree (newBookInfo o name)
    have hpublish := hbook.publish hnew (Function.update_self ..) rfl hroom
    have hmem : b ∈ ((g.setBook b (newBookInfo o name)).publish b).bookTotal.head :=
      List.mem_append_right g.bookTotal.head (List.mem_singleton_self b)
    refine ⟨_, ?_, hpublish.shelve (hpermit.1 o rfl) hmem hone, ?_, ?_, ?_⟩
    · have hprivateEq := addPrivate_eq (hbook.shelf o) hone b
      have hpublicEq : addPublic ((g.setBook b (newBookInfo o name)).shelve o b) b =
          some (((g.setBook b (newBookInfo o name)).publish b).shelve o b) :=
        addPublic_eq (g := (g.setBook b (newBookInfo o name)).shelve o b) hbook.total hbook.tail b
      rw [ELibrary.addBook, hget, hnone hother, Option.bind_some, hb]
      dsimp only
      rw [if_neg (by omega), if_pos hprivate]
      erw [hprivateEq]
      rw [Option.bind_some, if_pos hpublic, hpublicEq]
      rfl
    · refine ⟨b, ?_, newBookInfo o name, Function.update_self .., rfl⟩
      rw [Server.shelve, setUser_user_self]
      exact List.mem_append_right (g.user o).books (List.mem_singleton_self b)
    · intro u c hc
      by_cases hu : u = o
      · rw [hu, Server.shelve, setUser_user_self]
        exact List.mem_append_left [b] (hu ▸ hc)
      · rwa [Server.shelve, setUser_user_of_ne _ hu]
    · intro c hc
      exact List.mem_append_left [b] hc

theorem Server.Shelved.step {layout : UserLayout} {g g' : Server} {op : BookOp} (h : g.Shelved)
    (hpermit : g.PermitsBook op) (hmeet : g.MeetsBook op)
    (hg : bookStep layout g op = some g') : g'.Shelved := by
  cases op with
  | addUser userName email malloc => exact h.addUser hpermit hg
  | addBook owner bookName bookDesp bookGroup malloc =>
    cases owner with
    | none =>
      cases hg
      exact h
    | some o =>
      cases bookName with
      | none =>
        cases hg
        exact h
      | some name =>
        obtain ⟨t, ht, hshelved, -⟩ := h.addBook hpermit hmeet
        rw [bookStep, ht] at hg
        cases hg
        exact hshelved
  | rmBook host bookName =>
    cases host with
    | none =>
      cases hg
      exact h
    | some host =>
      cases bookName with
      | none =>
        cases hg
        exact h
      | some name =>
        rw [bookStep, h.rmBook_eq hmeet] at hg
        cases hg
        exact h

theorem takesOff_self {g : Server} {host : ℕ} {name : CString}
    (hno : ∀ b ∈ (g.user host).books, ¬ NameStarts g b name) : TakesOff g g host name := by
  have hnamed : ∀ b ∈ (g.user host).books, ¬ Named g b name := by
    intro b hb hnamed
    apply hno b hb
    obtain ⟨info, hinfo, rfl⟩ := hnamed
    exact ⟨info, hinfo, info.name.startsWith_self⟩
  constructor
  · intro u b
    constructor
    · intro hb
      refine ⟨hb, ?_⟩
      rintro ⟨rfl, hname⟩
      exact hnamed b hb hname
    · exact fun hb => hb.1
  · intro b
    constructor
    · intro hb
      refine ⟨hb, ?_⟩
      rintro ⟨hhost, hname, -⟩
      exact hnamed b hhost hname
    · exact fun hb => hb.1

theorem Server.Shelved.bookCallMeets {g : Server} {op : BookOp} (h : g.Shelved)
    (hpermit : g.PermitsBook op) (hmeet : g.MeetsBook op) : g.BookCallMeets op := by
  cases op with
  | addUser userName email malloc => trivial
  | addBook owner bookName bookDesp bookGroup malloc =>
    cases owner with
    | none => trivial
    | some o =>
      cases bookName with
      | none => trivial
      | some name =>
        obtain ⟨g', hg', -, hnamed, hkeeps⟩ := h.addBook hpermit hmeet
        exact ⟨.ok, g', hg', fun _ => ⟨hnamed, hkeeps⟩⟩
  | rmBook host bookName =>
    cases host with
    | none => trivial
    | some host =>
      cases bookName with
      | none => trivial
      | some name => exact ⟨.ok, g, h.rmBook_eq hmeet, takesOff_self hmeet⟩

/-- In every run whose calls meet their conditions, every call does what it has to do, and
shelves, library and counters are in step in every state reached. -/
theorem book_run_inStep (layout : UserLayout) (ops : List BookOp)
    (hops : Along (bookStep layout) (fun g op => g.PermitsBook op ∧ g.MeetsBook op)
      Server.init ops) :
    Along (bookStep layout) Server.BookCallMeets Server.init ops ∧
      ∀ g, runFrom (bookStep layout) Server.init ops = some g → g.BooksInStep := by
  have hstep : ∀ (g : Server) op g', g.Shelved → g.PermitsBook op ∧ g.MeetsBook op →
      bookStep layout g op = some g' → g'.Shelved := by
    intro g op g' h hop hg
    exact h.step hop.1 hop.2 hg
  constructor
  · apply along_of_invariant hstep _ shelved_init hops
    intro g op h hop
    exact h.bookCallMeets hop.1 hop.2
  · intro g hg
    exact (runFrom_invariant hstep shelved_init hops hg).booksInStep

def dune : CString := ⟨[68, 117, 110, 101], by decide⟩
def emma : CString := ⟨[69, 109, 109, 97], by decide⟩
def ulysses : CString := ⟨[85, 108, 121, 115, 115, 101, 115], by decide⟩

theorem book_run_inStep_example :
    ∃ g, runFrom (bookStep smallLayout) Server.init
        [.addUser alex alex ⟨some 0, true, true⟩,
          .addBook (some 0) (some dune) none none ⟨some 1, true, true⟩,
          .rmBook (some 0) (some emma)] = some g ∧ g.BooksInStep := by
  have hops : Along (bookStep smallLayout) (fun g op => g.PermitsBook op ∧ g.MeetsBook op)
      Server.init [.addUser alex alex ⟨some 0, true, true⟩,
        .addBook (some 0) (some dune) none none ⟨some 1, true, true⟩,
        .rmBook (some 0) (some emma)] := by
    constructor
    · exact ⟨fun _ _ => List.not_mem_nil, trivial⟩
    rintro _ ⟨⟩
    constructor
    · have hmem : 0 ∈ [0] := by decide
      have hlength : dune.strlen ≤ maxBookNameLength := by decide
      have hroom : 0 + 1 < 2 ^ 32 := by decide
      refine ⟨⟨?_, fun _ _ => rfl⟩, .inr ⟨?_, hlength, Nat.zero_le 1, hroom, rfl, rfl, rfl⟩⟩
      · rintro o ⟨⟩
        exact hmem
      · intro b hb
        cases hb
    rintro _ ⟨⟩
    constructor
    · have hmem : 0 ∈ [0] := by decide
      have hname : ¬ dune.StartsWith emma := by decide
      refine ⟨?_, ?_⟩
      · rintro h ⟨⟩
        exact hmem
      · intro b hb hstarts
        rcases List.mem_singleton.mp hb with rfl
        obtain ⟨_, ⟨⟩, hstarts⟩ := hstarts
        exact hname hstarts
    · intro g _
      trivial
  exact ⟨_, rfl, (book_run_inStep smallLayout _ hops).2 _ rfl⟩

/-- A third book takes the place of the second one on its owner's shelf, and a removed book
stays in the library though nobody has it any more. -/
theorem book_run_not_inStep :
    (∃ g g', runFrom (bookStep smallLayout) Server.init
        [.addUser alex alex ⟨some 0, true, true⟩,
          .addBook (some 0) (some dune) none none ⟨some 1, true, true⟩,
          .addBook (some 0) (some emma) none none ⟨some 2, true, true⟩] = some g ∧
        addBook g (some 0) (some ulysses) none none ⟨some 3, true, true⟩ = some (.ok, g') ∧
        ¬ KeepsBooks g g' ∧ ¬ g'.BooksInStep) ∧
      ∃ g g', runFrom (bookStep smallLayout) Server.init
        [.addUser alex alex ⟨some 0, true, true⟩,
          .addBook (some 0) (some dune) none none ⟨some 1, true, true⟩] = some g ∧
        rmBook g (some 0) (some dune) = some (.ok, g') ∧ ¬ TakesOff g g' 0 dune := by
  constructor
  · refine ⟨_, _, rfl, rfl, ?_, ?_⟩
    · intro h
      have hmem : 2 ∈ [1, 3] := h.1 0 2 (by decide)
      revert hmem
      decide
    · intro h
      have hcount : 3 = 2 := h.shelf 0
      cases hcount
  · refine ⟨_, _, rfl, rfl, ?_⟩
    intro h
    have hmem : 1 ∈ [1] := by decide
    apply ((h.2 1).mp hmem).2
    refine ⟨hmem, ⟨_, rfl, rfl⟩, ?_⟩
    intro u hu
    cases u with
    | zero => exact (hu rfl).elim
    | succ u => exact List.not_mem_nil

end MorningProjects.ELibrary
