import MorningProjects.ELibrary.Commands
import Mathlib.Data.List.Forall2

/-!
# The mirror of a directory

The mirror of a directory has the wows of every book for its buys, and what was recorded since
may carry the other tag. From a directory and its mirror `wowBook` and `buyBook` lead to mirrored
directories again, with one activity more under either tag, and lookups by name find the same.
-/
namespace MorningProjects.ELibrary
open Library

/-! ### The other tag -/

def ActyFilter.mirror : ActyFilter → ActyFilter
  | .byWow => .byBuy
  | .byBuy => .byWow
  | .userCreate => .userCreate
  | .addingBook => .addingBook
  | .addingFrd => .addingFrd
  | .deletingBook => .deletingBook

def Mark.mirror : Mark → Mark
  | .wow => .buy
  | .buy => .wow

/-- Texts in which whole words WOW and BUY are exchanged. -/
inductive Retagged : List UInt8 → List UInt8 → Prop
  | nil : Retagged [] []
  | keep (b : UInt8) {t t' : List UInt8} (rest : Retagged t t') : Retagged (b :: t) (b :: t')
  | tag (m : Mark) {t t' : List UInt8} (rest : Retagged t t') :
      Retagged (m.act.bytes ++ t) (m.mirror.act.bytes ++ t')

/-- Texts of one activity, the same or with the other tag. -/
inductive Retold : CString → CString → Prop
  | same (text : CString) : Retold text text
  | told (filter : ActyFilter) (time username name : CString) :
      Retold (actyText filter time username name) (actyText filter.mirror time username name)

/-- Slots of the ring that the same activities were copied to, up to the tag. -/
inductive RetoldSlot : List UInt8 → List UInt8 → Prop
  | same {slot : List UInt8} (h : slot.length = maxActyLength) : RetoldSlot slot slot
  | copied (filter : ActyFilter) (time username name : CString) {slot slot' : List UInt8}
      (rest : RetoldSlot slot slot') :
      RetoldSlot (copyOver (actyText filter time username name) slot)
        (copyOver (actyText filter.mirror time username name) slot')

theorem Mark.mirror_filter (m : Mark) : m.mirror.filter = m.filter.mirror := by
  cases m <;> rfl

theorem retagged_refl (t : List UInt8) : Retagged t t := by
  induction t with
  | nil => exact .nil
  | cons b t ih => exact .keep b ih

theorem Retagged.length_eq {t t' : List UInt8} (h : Retagged t t') : t.length = t'.length := by
  induction h with
  | nil => rfl
  | keep b _ ih => rw [List.length_cons, List.length_cons, ih]
  | tag m _ ih =>
    rw [List.length_append, List.length_append, ih]
    cases m <;> rfl

theorem length_copyOver {text : CString} {slot : List UInt8} (h : text.strlen ≤ slot.length) :
    (copyOver text slot).length = slot.length := by
  rw [copyOver, List.length_append, List.length_drop, ← CString.strlen]
  omega

theorem RetoldSlot.length {slot slot' : List UInt8} (h : RetoldSlot slot slot') :
    slot.length = maxActyLength ∧ slot'.length = maxActyLength := by
  have hfits : ∀ filter time username name,
      (actyText filter time username name).strlen ≤ maxActyLength :=
    fun filter time username name => (actyText_length filter time username name).2.le
  induction h with
  | same h => exact ⟨h, h⟩
  | copied filter time username name _ ih =>
    constructor
    · exact (length_copyOver ((hfits ..).trans ih.1.ge)).trans ih.1
    · exact (length_copyOver ((hfits ..).trans ih.2.ge)).trans ih.2

/-! ### The mirror of a directory -/

def BookInfo.mirror (info : BookInfo) : BookInfo :=
  { info with numWow := info.numBuy, whoWowed := info.whoBuyed, numBuy := info.numWow
              whoBuyed := info.whoWowed }

def Server.mirror (g : Server) : Server :=
  { g with book := fun b => (g.book b).map BookInfo.mirror }

def Acty.Alike (x y : Acty) : Prop := x.timestamp = y.timestamp ∧ Retold x.acty y.acty

/-- Every book carries its records for those of the other, and the histories tell the same. -/
structure MirroredActies (s s' : ActyServer) : Prop where
  server : s'.server = s.server.mirror
  activity : ∀ u, List.Forall₂ Acty.Alike (s.activity u) (s'.activity u)
  numActy : s'.numActy = s.numActy

structure MirroredRing (lib lib' : BookLibrary) : Prop where
  actyHeadOffset : lib'.actyHeadOffset = lib.actyHeadOffset
  actyTailOffset : lib'.actyTailOffset = lib.actyTailOffset
  slots : ∀ i, RetoldSlot (lib.activities i) (lib'.activities i)

structure Mirrored (s s' : SiteServer) : Prop where
  acties : MirroredActies s.acties s'.acties
  bookTotal : MirroredRing s.bookTotal s'.bookTotal

/-- A directory whose books have as many wows as buys, by the same users, is its own mirror. -/
theorem mirrored_self {s : SiteServer}
    (hbook : ∀ b, (s.acties.server.book b).map BookInfo.mirror = s.acties.server.book b)
    (hslot : ∀ i, (s.bookTotal.activities i).length = maxActyLength) : Mirrored s s where
  acties := ⟨congrArg (Server.mk _ _ · _) (funext fun b => (hbook b).symm),
    fun _ => List.forall₂_same.mpr fun x _ => ⟨rfl, .same x.acty⟩, rfl⟩
  bookTotal := ⟨rfl, rfl, fun i => .same (hslot i)⟩

/-! ### What happens to a directory and its mirror -/

/-- The entries of one activity with the one tag and with the other. -/
def Acty.Told (x y : Acty) : Prop :=
  x.timestamp = y.timestamp ∧ ∃ filter time username name,
    x.acty = actyText filter time username name ∧ y.acty = actyText filter.mirror time username name

/-- Histories that got the same activities, up to the tag. -/
def Grown (s s' t t' : ActyServer) : Prop :=
  ∀ u, ∃ new new', t.activity u = s.activity u ++ new ∧ t'.activity u = s'.activity u ++ new' ∧
    List.Forall₂ Acty.Told new new'

/-- A slot on either side after one step at most. -/
inductive SlotTold (slot slot' : List UInt8) : List UInt8 → List UInt8 → Prop
  | stay : SlotTold slot slot' slot slot'
  | copied (filter : ActyFilter) (time username name : CString) :
      SlotTold slot slot' (copyOver (actyText filter time username name) slot)
        (copyOver (actyText filter.mirror time username name) slot')

/-- From `s` and `s'` the same has led to `t` and `t'`, with wows for buys. -/
structure Follows (s s' t t' : SiteServer) : Prop where
  mirrored : Mirrored t t'
  activity : Grown s.acties s'.acties t.acties t'.acties
  slots : ∀ i, SlotTold (s.bookTotal.activities i) (s'.bookTotal.activities i)
    (t.bookTotal.activities i) (t'.bookTotal.activities i)

theorem grown_self (s s' : ActyServer) : Grown s s' s s' :=
  fun _ => ⟨[], [], (List.append_nil _).symm, (List.append_nil _).symm, .nil⟩

theorem Grown.alike {s s' t t' : ActyServer} (h : Grown s s' t t')
    (hs : ∀ u, List.Forall₂ Acty.Alike (s.activity u) (s'.activity u)) (u : ℕ) :
    List.Forall₂ Acty.Alike (t.activity u) (t'.activity u) := by
  obtain ⟨new, new', hnew, hnew', htold⟩ := h u
  rw [hnew, hnew']
  refine List.rel_append (hs u) (htold.imp ?_)
  rintro x y ⟨htime, filter, time, username, name, hx, hy⟩
  exact ⟨htime, hx ▸ hy ▸ .told ..⟩

theorem SlotTold.retold {slot slot' t t' : List UInt8} (h : SlotTold slot slot' t t')
    (hslot : RetoldSlot slot slot') : RetoldSlot t t' := by
  cases h with
  | stay => exact hslot
  | copied filter time username name => exact .copied filter time username name hslot

theorem follows_self {s s' : SiteServer} (h : Mirrored s s') : Follows s s' s s' :=
  ⟨h, grown_self _ _, fun _ => .stay⟩

/-! ### The operations -/

section Operations

theorem mirror_setBook (g : Server) (b : ℕ) (info : BookInfo) :
    (g.setBook b info).mirror = g.mirror.setBook b info.mirror := by
  rw [Server.mirror, Server.mirror, Server.setBook, Server.setBook]
  congr 1
  funext b'
  by_cases hb : b' = b
  · subst hb
    simp
  · simp [Function.update_of_ne hb]

theorem mirror_num (m : Mark) (info : BookInfo) : m.mirror.num info.mirror = m.num info := by
  cases m <;> rfl

theorem mirror_who (m : Mark) (info : BookInfo) : m.mirror.who info.mirror = m.who info := by
  cases m <;> rfl

theorem mirror_set (m : Mark) (info : BookInfo) (num : UInt32) (who : List NameDate) :
    m.mirror.set info.mirror num who = (m.set info num who).mirror := by
  cases m <;> rfl

section Acties

variable {s s' : ActyServer}

theorem MirroredActies.book (h : MirroredActies s s') (book : ℕ) :
    s'.server.book book = (s.server.book book).map BookInfo.mirror := by
  rw [h.server]
  rfl

theorem MirroredActies.user (h : MirroredActies s s') : s'.server.user = s.server.user := by
  rw [h.server]
  rfl

theorem MirroredActies.setBook (h : MirroredActies s s') (book : ℕ) (info : BookInfo) :
    MirroredActies { s with server := s.server.setBook book info }
      { s' with server := s'.server.setBook book info.mirror } := by
  refine ⟨?_, h.activity, h.numActy⟩
  change s'.server.setBook book info.mirror = (s.server.setBook book info).mirror
  rw [mirror_setBook, h.server]

theorem addUserActy_grown (huser : s'.server.user = s.server.user) (host : ℕ)
    (filter : ActyFilter) (name : CString) (input : MarkInput) :
    Grown s s' (addUserActy s host filter name input).2
      (addUserActy s' host filter.mirror name input).2 := by
  intro u
  rw [addUserActy, addUserActy]
  split_ifs
  · dsimp only
    by_cases hu : u = host
    · subst hu
      rw [Function.update_self, Function.update_self, huser]
      exact ⟨_, _, rfl, rfl, .cons ⟨rfl, _, _, _, _, rfl, rfl⟩ .nil⟩
    · rw [Function.update_of_ne hu, Function.update_of_ne hu]
      exact grown_self s s' u
  · exact grown_self s s' u

theorem addUserActy_mirrored (h : MirroredActies s s') (host : ℕ) (filter : ActyFilter)
    (name : CString) (input : MarkInput) :
    (addUserActy s host filter name input).1 = (addUserActy s' host filter.mirror name input).1 ∧
      MirroredActies (addUserActy s host filter name input).2
        (addUserActy s' host filter.mirror name input).2 ∧
      Grown s s' (addUserActy s host filter name input).2
        (addUserActy s' host filter.mirror name input).2 := by
  have hgrown := addUserActy_grown h.user host filter name input
  refine ⟨?_, ⟨?_, hgrown.alike h.activity, ?_⟩, hgrown⟩
  · rw [addUserActy, addUserActy]
    split_ifs <;> rfl
  · rw [addUserActy, addUserActy]
    split_ifs <;> exact h.server
  · rw [addUserActy, addUserActy]
    split_ifs
    · dsimp only
      rw [h.numActy]
    · exact h.numActy

/-- `wowBook` and `buyBook` have the same status, and leave mirrored records and the same activity
up to the tag. -/
theorem markBook_mirrored (h : MirroredActies s s') (m : Mark) (host book : ℕ)
    (input : MarkInput) :
    Option.Rel (fun r r' => r.1 = r'.1 ∧ MirroredActies r.2 r'.2 ∧ Grown s s' r.2 r'.2)
      (markBook m s host book input) (markBook m.mirror s' host book input) := by
  rw [markBook, markBook, h.book, h.user]
  cases s.server.book book with
  | none => exact .none
  | some info =>
    have howner : info.mirror.owner = info.owner := rfl
    simp only [Option.map_some, Option.bind_eq_bind, Option.bind_some, howner]
    cases info.owner with
    | none => exact .none
    | some owner =>
      simp only [Option.bind_some]
      split_ifs
      · exact .some ⟨rfl, h, grown_self s s'⟩
      · rw [mirror_num, mirror_who, mirror_set, m.mirror_filter]
        exact .some (addUserActy_mirrored (h.setBook book _) host _ _ input)
      · rw [mirror_num, mirror_who, mirror_set]
        exact .some ⟨rfl, h.setBook book _, grown_self s s'⟩

end Acties

variable {s s' : SiteServer}

theorem siteStep_slots (huser : s'.acties.server.user = s.acties.server.user)
    (htail : s'.bookTotal.actyTailOffset = s.bookTotal.actyTailOffset) (host : ℕ)
    (filter : ActyFilter) (name : CString) (input : MarkInput) (i : ℕ) :
    SlotTold (s.bookTotal.activities i) (s'.bookTotal.activities i)
      ((siteStep s ⟨host, filter, name, input⟩).bookTotal.activities i)
      ((siteStep s' ⟨host, filter.mirror, name, input⟩).bookTotal.activities i) := by
  rw [siteStep, siteStep]
  dsimp only
  split_ifs
  · dsimp only
    rw [htail]
    by_cases hi : i = s.bookTotal.actyTailOffset.toNat
    · subst hi
      rw [Function.update_self, Function.update_self, ActyCall.text, ActyCall.text, huser]
      exact .copied ..
    · rw [Function.update_of_ne hi, Function.update_of_ne hi]
      exact .stay
  · exact .stay

theorem siteStep_offsets (s : SiteServer) (c : ActyCall) :
    (siteStep s c).bookTotal.actyHeadOffset = s.bookTotal.actyHeadOffset ∧
      (siteStep s c).bookTotal.actyTailOffset = s.bookTotal.actyTailOffset := by
  rw [siteStep]
  dsimp only
  split_ifs <;> exact ⟨rfl, rfl⟩

theorem siteStep_mirrored (h : Mirrored s s') (host : ℕ) (filter : ActyFilter) (name : CString)
    (input : MarkInput) :
    MirroredRing (siteStep s ⟨host, filter, name, input⟩).bookTotal
      (siteStep s' ⟨host, filter.mirror, name, input⟩).bookTotal := by
  obtain ⟨hhead, htail, hslots⟩ := h.bookTotal
  refine ⟨?_, ?_, fun i => ?_⟩
  · rw [(siteStep_offsets s' _).1, (siteStep_offsets s _).1, hhead]
  · rw [(siteStep_offsets s' _).2, (siteStep_offsets s _).2, htail]
  · exact (siteStep_slots h.acties.user htail host filter name input i).retold (hslots i)

theorem markSite_follows (h : Mirrored s s') (m : Mark) (host book : ℕ) (input : MarkInput) :
    Option.Rel (fun r r' => r.1 = r'.1 ∧ Follows s s' r.2 r'.2)
      (markSite m s host book input) (markSite m.mirror s' host book input) := by
  rw [markSite, markSite, h.acties.book]
  cases s.acties.server.book book with
  | none => exact .none
  | some info =>
    simp only [Option.map_some, Option.bind_eq_bind, Option.bind_some]
    refine rel_bind (markBook_mirrored h.acties m host book input) ?_
    rintro ⟨result, acties⟩ ⟨_, acties'⟩ ⟨rfl, hacties, hgrown⟩
    refine .some ⟨rfl, ⟨hacties, ?_⟩, hgrown, fun i => ?_⟩
    · dsimp only
      split_ifs
      · rw [m.mirror_filter]
        exact siteStep_mirrored h host m.filter info.name input
      · exact h.bookTotal
    · dsimp only
      split_ifs
      · rw [m.mirror_filter]
        exact siteStep_slots h.acties.user h.bookTotal.actyTailOffset host m.filter info.name
          input i
      · exact .stay

end Operations

/-! ### The lookups -/

section Lookups

variable (g : Server) (name : CString)

theorem lookUpUser_mirror : lookUpUser g.mirror name = lookUpUser g name := by
  rw [lookUpUser, lookUpUser, getUserInfo_eq, getUserInfo_eq]
  rfl

theorem getBookFrom_mirror (books : List ℕ) :
    getBookFrom g.mirror none name books = getBookFrom g none name books := by
  induction books with
  | nil => rfl
  | cons b books ih =>
    rw [getBookFrom, getBookFrom, ih,
      show g.mirror.book b = (g.book b).map BookInfo.mirror from rfl]
    cases g.book b with
    | none => rfl
    | some info => rfl

theorem rel_mirror (book : ℕ) :
    Option.Rel (fun info info' => info' = BookInfo.mirror info) (g.book book)
      (g.mirror.book book) := by
  rw [show g.mirror.book book = (g.book book).map BookInfo.mirror from rfl]
  cases g.book book with
  | none => exact .none
  | some info => exact .some rfl

theorem getBookInfo_mirror (malloc : Bool) (filter : Option CString) :
    getBookInfo g.mirror malloc filter = getBookInfo g malloc filter := by
  have hbook : ∀ name, getBookByName g.mirror none name = getBookByName g none name :=
    fun name => getBookFrom_mirror g name g.bookTotal.head
  rw [getBookInfo, getBookInfo]
  simp only [hbook]

end Lookups

end MorningProjects.ELibrary
