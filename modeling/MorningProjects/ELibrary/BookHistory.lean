import MorningProjects.ELibrary.Marks
import MorningProjects.Library.HeapLog

/-!
# The history of a book

`getBookHty` builds an entry for every record of a kind and keeps only the last of them.
At the end it compares the number of entries with the counter of the book and, where they
agree, hands out NULL. On the way out `actyFree` starts its loop from NULL, too.
-/
namespace MorningProjects.ELibrary
open Library

/-- The tags that the readers of a history know: everything, or the tag of an entry. -/
inductive HistoryFilter where
  | all
  | of (filter : ActyFilter)
  deriving DecidableEq, Repr

namespace ActyText

def openQuote : CString := ⟨word [' ', quote], by decide⟩
def gotA : CString := ⟨word [quote, ' ', 'g', 'o', 't', ' ', 'a', ' '], by decide⟩
def by_ : CString := ⟨word [' ', 'b', 'y', ' '], by decide⟩
def exclaim : CString := ⟨word ['!'], by decide⟩
def wow : CString := ⟨word ['W', 'O', 'W'], by decide⟩
def buy : CString := ⟨word ['B', 'U', 'Y'], by decide⟩

end ActyText

def Mark.act : Mark → CString
  | .wow => ActyText.wow
  | .buy => ActyText.buy

open ActyText in
def htyText (myAscTimeLite : ℕ → CString) (m : Mark) (bookName : CString) (record : NameDate) :
    CString :=
  (CString.concat [myAscTimeLite record.date, openQuote, bookName, gotA, m.act, by_, record.name,
    exclaim]).strncpy (maxActyLength - 1)

/-- The entry for a record, with the zero that `memset` has left in `timestamp`. -/
def htyEntry (myAscTimeLite : ℕ → CString) (m : Mark) (bookName : CString) (record : NameDate) :
    Acty :=
  ⟨htyText myAscTimeLite m bookName record, 0⟩

/-! ### The release of a list -/

abbrev HtyLog := List (HeapEvent Empty)

def sizeofActyList : ℕ := 88

/-- The loop of `actyFree`, from a node on. -/
def freeNodes (current : List ℕ) : HtyLog := current.map .free

/-- `actyFree`, given the nodes from its argument on. The loop for WOW and BUY starts at
`current`, which is NULL. -/
def actyFree (filter : HistoryFilter) (activities : List ℕ) : HtyLog :=
  match filter with
  | .all => freeNodes (activities.take 1)
  | .of .byWow | .of .byBuy => freeNodes []
  | .of _ => []

/-! ### The history -/

/-- The loop over the records: the counter, the nodes from `ptr` on, the entries made. -/
structure HtyLoop where
  counter : UInt32
  ptr : List ℕ
  entries : List Acty
  log : HtyLog

def HtyLoop.start : HtyLoop := ⟨0, [], [], []⟩

def HtyLoop.append (a : ℕ) (acty : Acty) (l : HtyLoop) : HtyLoop :=
  ⟨l.counter + 1, [a], l.entries ++ [acty], l.log ++ [.malloc (some a) sizeofActyList]⟩

/-- `malloc k` is the answer after `k` entries. -/
def htyLoop (filter : HistoryFilter) (entry : NameDate → Acty) (malloc : ℕ → Option ℕ) :
    List NameDate → HtyLoop → HtyLoop
  | [], l => l
  | record :: current, l =>
    match malloc l.entries.length with
    | none =>
      { l with log := l.log ++ .malloc none sizeofActyList :: actyFree filter l.ptr }
    | some a => htyLoop filter entry malloc current (l.append a (entry record))

structure HtyResult where
  status : SystemStatus
  counter : UInt32
  activities : List Acty
  log : HtyLog

/-- `getBookHty`, with the list and the number that the outputs held before. -/
def getBookHty (myAscTimeLite : ℕ → CString) (malloc : ℕ → Option ℕ) (book : BookInfo)
    (filter : HistoryFilter) (counter : UInt32) (activities : List Acty) : HtyResult :=
  let history (m : Mark) : HtyResult :=
    let l := htyLoop filter (htyEntry myAscTimeLite m book.name) malloc (m.who book) .start
    if l.counter = m.num book then ⟨.ok, l.counter, [], l.log⟩
    else ⟨.fail, 0, activities, l.log⟩
  match filter with
  | .of .byWow => history .wow
  | .of .byBuy => history .buy
  | _ => ⟨.invalidParam, counter, activities, []⟩

/-! ### What has to hold -/

/-- A history is an entry for every record, in their order, with their number; without memory
for one of them it is a failure, with the counter at zero and all entries given back. -/
structure HtyMeets (entry : NameDate → Acty) (records : List NameDate) (malloc : ℕ → Option ℕ)
    (r : HtyResult) : Prop where
  all : (∀ k < records.length, malloc k ≠ none) →
    r.status = .ok ∧ r.activities = records.map entry ∧ r.counter.toNat = records.length
  failed : (∃ k < records.length, malloc k = none) →
    r.status ≠ .ok ∧ r.counter = 0 ∧ FreedOnce r.log

section History

variable {myAscTimeLite : ℕ → CString} {malloc : ℕ → Option ℕ} {m : Mark} {book : BookInfo}
  {filter : HistoryFilter} {entry : NameDate → Acty} {records : List NameDate} {l : HtyLoop}
  {counter : UInt32} {activities : List Acty}

theorem actyFree_mark (m : Mark) (nodes : List ℕ) : actyFree (.of m.filter) nodes = [] := by
  cases m <;> rfl

theorem getBookHty_mark : getBookHty myAscTimeLite malloc book (.of m.filter) counter activities =
    let l := htyLoop (.of m.filter) (htyEntry myAscTimeLite m book.name) malloc (m.who book) .start
    if l.counter = m.num book then ⟨.ok, l.counter, [], l.log⟩
    else ⟨.fail, 0, activities, l.log⟩ := by
  cases m <;> rfl

/-- The loop gives nothing back, and keeps what it was given. -/
theorem htyLoop_log (m : Mark) (entry : NameDate → Acty) (malloc : ℕ → Option ℕ)
    (records : List NameDate) (l : HtyLoop) :
    freed (htyLoop (.of m.filter) entry malloc records l).log = freed l.log ∧
    blocks l.log <+: blocks (htyLoop (.of m.filter) entry malloc records l).log := by
  induction records generalizing l with
  | nil => exact ⟨rfl, List.prefix_refl _⟩
  | cons record current ih =>
    rw [htyLoop]
    cases hmem : malloc l.entries.length with
    | none =>
      dsimp only
      rw [actyFree_mark, freed_append, blocks_append]
      exact ⟨List.append_nil _, List.prefix_append _ _⟩
    | some a =>
      obtain ⟨hfreed, hblocks⟩ := ih (l.append a (entry record))
      dsimp only
      rw [hfreed, HtyLoop.append, freed_append]
      rw [HtyLoop.append, blocks_append] at hblocks
      exact ⟨List.append_nil _, (List.prefix_append _ _).trans hblocks⟩

theorem htyLoop_none {record : NameDate} (hmem : malloc 0 = none) :
    htyLoop (.of m.filter) entry malloc (record :: records) .start =
      ⟨0, [], [], [.malloc none sizeofActyList]⟩ := by
  rw [htyLoop]
  simp only [HtyLoop.start, List.length_nil, hmem, actyFree_mark]
  rfl

theorem not_freedOnce {record : NameDate} {a : ℕ} (hmem : malloc 0 = some a) :
    ¬ FreedOnce (htyLoop (.of m.filter) entry malloc (record :: records) .start).log := by
  have hstep : htyLoop (.of m.filter) entry malloc (record :: records) .start =
      htyLoop (.of m.filter) entry malloc records (HtyLoop.start.append a (entry record)) := by
    rw [htyLoop]
    simp only [HtyLoop.start, List.length_nil, hmem]
  obtain ⟨hfreed, hblocks⟩ := htyLoop_log m entry malloc records
    (HtyLoop.start.append a (entry record))
  rw [hstep, FreedOnce, hfreed]
  intro h
  have hlength := h.length_eq
  have hone := hblocks.length_le
  rw [List.length_map] at hlength
  have hnone : (freed (HtyLoop.start.append a (entry record)).log).length = 0 := rfl
  have hblock : (blocks (HtyLoop.start.append a (entry record)).log).length = 1 := rfl
  omega

/-- The list handed out is never the one that was made. -/
theorem getBookHty_activities (myAscTimeLite : ℕ → CString) (malloc : ℕ → Option ℕ)
    (book : BookInfo) (m : Mark) (counter : UInt32) (activities : List Acty)
    (h : (getBookHty myAscTimeLite malloc book (.of m.filter) counter activities).status = .ok) :
    (getBookHty myAscTimeLite malloc book (.of m.filter) counter activities).activities = [] := by
  rw [getBookHty_mark] at h ⊢
  dsimp only at h ⊢
  split_ifs at h ⊢
  rfl

theorem htyMeets_nil_iff (hwho : m.who book = []) :
    HtyMeets (htyEntry myAscTimeLite m book.name) [] malloc
        (getBookHty myAscTimeLite malloc book (.of m.filter) counter activities) ↔
      m.num book = 0 := by
  rw [getBookHty_mark, hwho]
  dsimp only [htyLoop, HtyLoop.start]
  constructor
  · intro h
    obtain ⟨hstatus, -⟩ := h.all fun k hk => absurd hk (Nat.not_lt_zero k)
    split_ifs at hstatus with hnum
    exact hnum.symm
  · intro hnum
    rw [hnum, if_pos rfl]
    exact ⟨fun _ => ⟨rfl, rfl, rfl⟩, fun ⟨k, hk, _⟩ => absurd hk (Nat.not_lt_zero k)⟩

/-- Without memory for the first entry the call fails, unless the counter is zero. -/
theorem htyMeets_none_iff {record : NameDate} (hwho : m.who book = record :: records)
    (hmem : malloc 0 = none) :
    HtyMeets (htyEntry myAscTimeLite m book.name) (record :: records) malloc
        (getBookHty myAscTimeLite malloc book (.of m.filter) counter activities) ↔
      m.num book ≠ 0 := by
  rw [getBookHty_mark, hwho]
  dsimp only
  rw [htyLoop_none hmem]
  constructor
  · intro h hnum
    obtain ⟨hstatus, -⟩ := h.failed ⟨0, Nat.zero_lt_succ _, hmem⟩
    apply hstatus
    rw [hnum, if_pos rfl]
  · intro hnum
    rw [if_neg hnum.symm]
    exact ⟨fun h => absurd hmem (h 0 (Nat.zero_lt_succ _)),
      fun _ => ⟨SystemStatus.noConfusion, rfl, List.Perm.nil⟩⟩

/-- Once an entry is made, it is neither handed out nor given back. -/
theorem not_htyMeets_of_some {record : NameDate} {a : ℕ} (hwho : m.who book = record :: records)
    (hmem : malloc 0 = some a) :
    ¬ HtyMeets (htyEntry myAscTimeLite m book.name) (record :: records) malloc
        (getBookHty myAscTimeLite malloc book (.of m.filter) counter activities) := by
  intro h
  by_cases hall : ∀ k < (record :: records).length, malloc k ≠ none
  · obtain ⟨hstatus, hlist, -⟩ := h.all hall
    rw [getBookHty_activities myAscTimeLite malloc book m counter activities hstatus] at hlist
    cases hlist
  · push Not at hall
    obtain ⟨-, -, hfreed⟩ := h.failed hall
    have hlog : (getBookHty myAscTimeLite malloc book (.of m.filter) counter activities).log =
        (htyLoop (.of m.filter) (htyEntry myAscTimeLite m book.name) malloc
          (record :: records) .start).log := by
      rw [getBookHty_mark, hwho]
      dsimp only
      split_ifs <;> rfl
    rw [hlog] at hfreed
    exact not_freedOnce hmem hfreed

end History

/-- A history is what it should be exactly for a book without records and with a counter of
zero, or where there is no memory for the first entry and the counter is not zero. -/
theorem getBookHty_meets_iff (myAscTimeLite : ℕ → CString) (malloc : ℕ → Option ℕ)
    (book : BookInfo) (m : Mark) (counter : UInt32) (activities : List Acty) :
    HtyMeets (htyEntry myAscTimeLite m book.name) (m.who book) malloc
        (getBookHty myAscTimeLite malloc book (.of m.filter) counter activities) ↔
      (m.who book = [] ∧ m.num book = 0) ∨
        (m.who book ≠ [] ∧ malloc 0 = none ∧ m.num book ≠ 0) := by
  cases hwho : m.who book with
  | nil =>
    rw [htyMeets_nil_iff hwho]
    constructor
    · intro hnum
      exact Or.inl ⟨rfl, hnum⟩
    · rintro (⟨-, hnum⟩ | ⟨hne, -⟩)
      · exact hnum
      · exact absurd rfl hne
  | cons record records =>
    have hne := List.cons_ne_nil record records
    rw [or_iff_right fun hnil => hne hnil.1]
    cases hmem : malloc 0 with
    | none =>
      rw [htyMeets_none_iff hwho hmem]
      constructor
      · intro hnum
        exact ⟨hne, rfl, hnum⟩
      · rintro ⟨-, -, hnum⟩
        exact hnum
    | some a =>
      apply iff_of_false (not_htyMeets_of_some hwho hmem)
      rintro ⟨-, hnone, -⟩
      cases hnone

def wowedBook : BookInfo := { newBookInfo 0 dune with
  numWow := 1, whoWowed := [⟨(readers.server.user 1).username, 0⟩] }

/-- The history of this book is reported to have one entry, and has none. -/
theorem getBookHty_after_wow :
    (∃ s, runFrom markStep readers [wowing 1 true] = some s ∧
      s.server.book 0 = some wowedBook) ∧
    getBookHty (fun _ => CString.empty) some wowedBook (.of .byWow) 0 [] =
      ⟨.ok, 1, [], [.malloc (some 0) sizeofActyList]⟩ ∧
    ¬ HtyMeets (htyEntry (fun _ => CString.empty) .wow wowedBook.name) (Mark.wow.who wowedBook) some
      (getBookHty (fun _ => CString.empty) some wowedBook (.of .byWow) 0 []) := by
  refine ⟨⟨_, rfl, by decide⟩, rfl, fun h => ?_⟩
  obtain ⟨-, hlist, -⟩ := h.all fun _ _ => Option.some_ne_none _
  cases hlist

end MorningProjects.ELibrary
