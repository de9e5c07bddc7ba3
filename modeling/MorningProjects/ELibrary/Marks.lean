import MorningProjects.ELibrary.Wow
import MorningProjects.Library.Runs

/-!
# Runs of wows and buys

A call is as it should be if the book has an owner and its user is the owner, or
marks it for the first time, has no name that the owner's name starts with, and
gets all its memory. Every other call dereferences NULL, is taken for the wrong
one or leaves half of its work behind.
-/
namespace MorningProjects.ELibrary
open Library

def MarkCall.granted (c : MarkCall) : MarkCall :=
  { c with input := { c.input with record := true, acty := true } }

namespace ActyServer

def marked (m : Mark) (info : BookInfo) : List CString := (m.who info).map NameDate.name

def username (s : ActyServer) (u : ℕ) : CString := (s.server.user u).username

/-- Counters and lists of all books agree, and a list has no name twice and not the owner's. -/
structure Accounted (s : ActyServer) : Prop where
  counted : ∀ b info, s.server.book b = some info → ∀ m : Mark,
    (m.num info).toNat = (m.who info).length
  once : ∀ b info, s.server.book b = some info → ∀ m, (marked m info).Nodup
  notOwner : ∀ b info owner, s.server.book b = some info → info.owner = some owner →
    ∀ m, s.username owner ∉ marked m info

/-- The call fails, even with memory to be had. -/
def Refused (s : ActyServer) (c : MarkCall) : Prop := ∃ s', markCall s c.granted = some (.fail, s')

def IsOwner (s : ActyServer) (host : ℕ) (info : BookInfo) : Prop :=
  ∃ owner, info.owner = some owner ∧ s.username host = s.username owner

/-- A call on a book comes back and is refused exactly if the user is the owner or has done it
before; without success book and activities stay as they were; and afterwards the books are
accounted for. -/
def CallMeets (s : ActyServer) (c : MarkCall) : Prop :=
  ∀ info, s.server.book c.book = some info →
    (s.Refused c ↔ s.IsOwner c.host info ∨ s.username c.host ∈ marked c.mark info) ∧
    ∃ status s', markCall s c = some (status, s') ∧ s'.Accounted ∧
      (status ≠ .ok → s'.server.book c.book = s.server.book c.book ∧
        s'.activity c.host = s.activity c.host)

/-- The book has an owner, and the user is the owner, or marks the book for the first time, is not
taken for the owner, and gets the memory, and the counter has room. -/
def Meets (s : ActyServer) (c : MarkCall) : Prop :=
  ∀ info, s.server.book c.book = some info → ∃ owner, info.owner = some owner ∧
    (s.username c.host = s.username owner ∨
      s.username c.host ∉ marked c.mark info ∧
        ¬ (s.username owner).StartsWith (s.username c.host) ∧
        c.input.record ∧ c.input.acty ∧ (c.mark.num info).toNat + 1 < 2 ^ 32)

def Fresh (s : ActyServer) : Prop :=
  ∀ b info, s.server.book b = some info → ∀ m : Mark, m.num info = 0 ∧ m.who info = []

/-- The invariant: the books are accounted for, and a name in a list is not the beginning of the
owner's. -/
structure Sound (s : ActyServer) : Prop where
  counted : ∀ b info, s.server.book b = some info → ∀ m : Mark,
    (m.num info).toNat = (m.who info).length
  once : ∀ b info, s.server.book b = some info → ∀ m, (marked m info).Nodup
  notOwner : ∀ b info owner, s.server.book b = some info → info.owner = some owner →
    ∀ m, ∀ name ∈ marked m info, ¬ (s.username owner).StartsWith name

theorem Sound.accounted {s : ActyServer} (h : s.Sound) : s.Accounted where
  counted := h.counted
  once := h.once
  notOwner b info owner hb ho m hmem :=
    h.notOwner b info owner hb ho m _ hmem (CString.startsWith_self _)

theorem Fresh.sound {s : ActyServer} (h : s.Fresh) : s.Sound := by
  constructor
  · intro b info hb m
    rw [(h b info hb m).1, (h b info hb m).2]
    rfl
  · intro b info hb m
    rw [marked, (h b info hb m).2]
    exact List.nodup_nil
  · intro b info owner hb ho m name hmem
    rw [marked, (h b info hb m).2] at hmem
    cases hmem

theorem Sound.of_server {s s' : ActyServer} (h : s.Sound) (hs : s'.server = s.server) :
    s'.Sound := by
  obtain ⟨server, activity, numActy⟩ := s'
  cases hs
  exact ⟨h.counted, h.once, h.notOwner⟩

/-! ### One call -/

section Call

variable {s : ActyServer} {c : MarkCall} {info : BookInfo} {owner : ℕ}

def withCount (c : MarkCall) (info : BookInfo) : BookInfo :=
  c.mark.set info (c.mark.num info + 1) (c.mark.who info)

def withRecord (s : ActyServer) (c : MarkCall) (info : BookInfo) : BookInfo :=
  c.mark.set info (c.mark.num info + 1) (⟨s.username c.host, 0⟩ :: c.mark.who info)

def setBook (s : ActyServer) (b : ℕ) (info : BookInfo) : ActyServer :=
  { s with server := s.server.setBook b info }

theorem markCall_eq (s : ActyServer) (c : MarkCall) :
    markCall s c = markBook c.mark s c.host c.book c.input := by
  rw [markCall]
  cases c.mark <;> rfl

/-- The owner of the book is looked at first. -/
theorem markCall_of_no_owner (hb : s.server.book c.book = some info) (ho : info.owner = none) :
    markCall s c = none := by
  rw [markCall_eq, markBook, hb]
  simp only [Option.bind_eq_bind, Option.bind_some, ho]
  rfl

theorem markCall_of_startsWith (hb : s.server.book c.book = some info)
    (ho : info.owner = some owner) (h : (s.username owner).StartsWith (s.username c.host)) :
    markCall s c = some (.fail, s) := by
  rw [markCall_eq, markBook, hb]
  simp only [Option.bind_eq_bind, Option.bind_some, ho]
  exact if_pos (CString.strncmp_strlen.mpr h)

theorem markCall_of_record (hb : s.server.book c.book = some info) (ho : info.owner = some owner)
    (h : ¬ (s.username owner).StartsWith (s.username c.host)) (hr : c.input.record = true) :
    markCall s c = some (addUserActy (s.setBook c.book (s.withRecord c info)) c.host c.mark.filter
      info.name c.input) := by
  have hcmp := mt CString.strncmp_strlen.mp h
  have hname : (s.withRecord c info).name = info.name := by
    rw [withRecord]
    cases c.mark <;> rfl
  rw [markCall_eq, markBook, hb]
  simp only [Option.bind_eq_bind, Option.bind_some, ho, hr, if_true]
  rw [username, username] at hcmp
  rw [if_neg hcmp, CString.strncpy_of_le le_rfl, ← hname]
  rfl

theorem markCall_of_not_record (hb : s.server.book c.book = some info)
    (ho : info.owner = some owner) (h : ¬ (s.username owner).StartsWith (s.username c.host))
    (hr : c.input.record = false) :
    markCall s c = some (.fail, s.setBook c.book (withCount c info)) := by
  have hcmp := mt CString.strncmp_strlen.mp h
  rw [markCall_eq, markBook, hb]
  simp only [Option.bind_eq_bind, Option.bind_some, ho, hr]
  exact if_neg hcmp

theorem refused_iff (hb : s.server.book c.book = some info) (ho : info.owner = some owner) :
    s.Refused c ↔ (s.username owner).StartsWith (s.username c.host) := by
  constructor
  · rintro ⟨s', hs'⟩
    by_contra h
    rw [markCall_of_record (c := c.granted) hb ho h rfl, addUserActy] at hs'
    cases hs'
  · intro h
    exact ⟨s, markCall_of_startsWith (c := c.granted) hb ho h⟩

theorem marked_withRecord (m : Mark) : marked m (s.withRecord c info) =
    if m = c.mark then s.username c.host :: marked m info else marked m info := by
  rw [marked, withRecord]
  by_cases hm : m = c.mark
  · subst hm
    rw [if_pos rfl, Mark.who_set]
    rfl
  · rw [if_neg hm, Mark.who_set_of_ne hm]
    rfl

theorem setBook_cases {b b' : ℕ} {info' : BookInfo}
    (h : (s.setBook b info).server.book b' = some info') :
    b' = b ∧ info' = info ∨ s.server.book b' = some info' := by
  change Function.update s.server.book b (some info) b' = some info' at h
  by_cases hb : b' = b
  · subst hb
    rw [Function.update_self] at h
    exact .inl ⟨rfl, (Option.some.inj h).symm⟩
  · rw [Function.update_of_ne hb] at h
    exact .inr h

/-- A mark by a user that is neither in the list nor taken for the owner is accounted for. -/
theorem Sound.withRecord (h : s.Sound) (hb : s.server.book c.book = some info)
    (ho : info.owner = some owner)
    (hstart : ¬ (s.username owner).StartsWith (s.username c.host))
    (hnew : s.username c.host ∉ marked c.mark info)
    (hroom : (c.mark.num info).toNat + 1 < 2 ^ 32) :
    (s.setBook c.book (s.withRecord c info)).Sound := by
  constructor
  · intro b info' hb' m
    rcases setBook_cases hb' with ⟨rfl, rfl⟩ | hb'
    · rw [ActyServer.withRecord]
      by_cases hm : m = c.mark
      · subst hm
        rw [Mark.num_set, Mark.who_set, toNat_succ hroom, h.counted _ _ hb, List.length_cons]
      · rw [Mark.num_set_of_ne hm, Mark.who_set_of_ne hm]
        exact h.counted _ _ hb m
    · exact h.counted _ _ hb' m
  · intro b info' hb' m
    rcases setBook_cases hb' with ⟨rfl, rfl⟩ | hb'
    · rw [marked_withRecord]
      split_ifs with hm
      · subst hm
        exact List.nodup_cons.mpr ⟨hnew, h.once _ _ hb _⟩
      · exact h.once _ _ hb m
    · exact h.once _ _ hb' m
  · intro b info' owner' hb' ho' m name hmem
    rcases setBook_cases hb' with ⟨rfl, rfl⟩ | hb'
    · rw [ActyServer.withRecord, Mark.owner_set, ho] at ho'
      cases ho'
      rw [marked_withRecord] at hmem
      split_ifs at hmem with hm
      · rcases List.mem_cons.mp hmem with rfl | hmem
        · exact hstart
        · exact h.notOwner _ _ _ hb ho m name hmem
      · exact h.notOwner _ _ _ hb ho m name hmem
    · exact h.notOwner _ _ _ hb' ho' m name hmem

theorem withCount_ne (c : MarkCall) (info : BookInfo) : withCount c info ≠ info := by
  intro h
  have hnum := congrArg (fun info => (c.mark.num info).toNat) h
  rw [withCount, Mark.num_set] at hnum
  exact absurd (eq_zero_of_toNat_add (by decide) hnum) one_ne_zero

theorem withRecord_ne (s : ActyServer) (c : MarkCall) (info : BookInfo) :
    s.withRecord c info ≠ info := by
  intro h
  have hwho := congrArg (fun info => (c.mark.who info).length) h
  simp [ActyServer.withRecord] at hwho

theorem book_setBook (s : ActyServer) (b : ℕ) (info : BookInfo) :
    (s.setBook b info).server.book b = some info := Function.update_self ..

/-- A counter that agrees with its list had room for the last record. -/
theorem Sound.room (h : s.Sound) (hb : s.server.book c.book = some info) {s' : ActyServer}
    (hb' : s'.server.book c.book = some (s.withRecord c info)) (hacc : s'.Accounted) :
    (c.mark.num info).toNat + 1 < 2 ^ 32 := by
  have hcounted := hacc.counted _ _ hb' c.mark
  rw [ActyServer.withRecord, Mark.num_set, Mark.who_set, List.length_cons,
    ← h.counted _ _ hb c.mark] at hcounted
  exact toNat_succ_iff.mp hcounted

theorem markCall_of_meets (hb : s.server.book c.book = some info) (ho : info.owner = some owner)
    (h : ¬ (s.username owner).StartsWith (s.username c.host)) (hr : c.input.record = true)
    (ha : c.input.acty = true) :
    ∃ s', markCall s c = some (.ok, s') ∧
      s'.server = (s.setBook c.book (s.withRecord c info)).server := by
  rw [markCall_of_record hb ho h hr, addUserActy, if_pos ha]
  exact ⟨_, rfl, rfl⟩

theorem isOwner_iff (ho : info.owner = some owner) (host : ℕ) :
    s.IsOwner host info ↔ s.username host = s.username owner := by
  rw [IsOwner, ho]
  simp

/-- A call of somebody who does not own the book is as it should be only if it marks the book for
the first time, with memory for all of it. -/
theorem Sound.meets_of_call (h : s.Sound) (hb : s.server.book c.book = some info)
    (ho : info.owner = some owner) (howner : s.username c.host ≠ s.username owner)
    (hcall : s.CallMeets c) :
    s.username c.host ∉ marked c.mark info ∧
      ¬ (s.username owner).StartsWith (s.username c.host) ∧
      c.input.record ∧ c.input.acty ∧ (c.mark.num info).toNat + 1 < 2 ^ 32 := by
  obtain ⟨hrefused, status, s', hcall, hacc, hkeep⟩ := hcall info hb
  rw [refused_iff hb ho, isOwner_iff ho] at hrefused
  have hnew : s.username c.host ∉ marked c.mark info := by
    intro hmem
    exact h.notOwner _ _ _ hb ho _ _ hmem (hrefused.mpr (.inr hmem))
  have hstart : ¬ (s.username owner).StartsWith (s.username c.host) := by
    intro hstarts
    exact (hrefused.mp hstarts).elim howner hnew
  cases hr : c.input.record with
  | false =>
    rw [markCall_of_not_record hb ho hstart hr] at hcall
    cases hcall
    have hbook := (hkeep (by decide)).1
    rw [book_setBook, hb] at hbook
    exact absurd (Option.some.inj hbook) (withCount_ne c info)
  | true =>
    cases ha : c.input.acty with
    | false =>
      rw [markCall_of_record hb ho hstart hr, addUserActy, if_neg (by simp [ha])] at hcall
      cases hcall
      have hbook := (hkeep (by decide)).1
      rw [book_setBook, hb] at hbook
      exact absurd (Option.some.inj hbook) (withRecord_ne s c info)
    | true =>
      obtain ⟨s'', hcall', hserver⟩ := markCall_of_meets hb ho hstart hr ha
      cases hcall.symm.trans hcall'
      have hbook : s'.server.book c.book = some (s.withRecord c info) := by
        rw [hserver, book_setBook]
      exact ⟨hnew, hstart, rfl, rfl, h.room hb hbook hacc⟩

theorem Sound.callMeets_iff (h : s.Sound) : s.CallMeets c ↔ s.Meets c := by
  constructor
  · intro hcall info hb
    cases ho : info.owner with
    | none =>
      obtain ⟨-, status, s', hs', -⟩ := hcall info hb
      rw [markCall_of_no_owner hb ho] at hs'
      cases hs'
    | some owner =>
      refine ⟨owner, rfl, ?_⟩
      by_cases howner : s.username c.host = s.username owner
      · exact .inl howner
      · exact .inr (h.meets_of_call hb ho howner hcall)
  · intro hmeets info hb
    obtain ⟨owner, ho, hmeets⟩ := hmeets info hb
    rw [refused_iff hb ho, isOwner_iff ho]
    by_cases howner : s.username c.host = s.username owner
    · have hself : (s.username owner).StartsWith (s.username c.host) := by
        rw [howner]
        exact CString.startsWith_self _
      refine ⟨iff_of_true hself (.inl howner), .fail, s, ?_, h.accounted, fun _ => ⟨rfl, rfl⟩⟩
      exact markCall_of_startsWith hb ho hself
    · obtain ⟨hnew, hstart, hr, ha, hroom⟩ := hmeets.resolve_left howner
      obtain ⟨s', hcall, hserver⟩ := markCall_of_meets hb ho hstart hr ha
      have hsound := (h.withRecord hb ho hstart hnew hroom).of_server hserver
      exact ⟨iff_of_false hstart (not_or.mpr ⟨howner, hnew⟩), .ok, s', hcall, hsound.accounted,
        fun hne => absurd rfl hne⟩

theorem Sound.step (h : s.Sound) (hm : s.Meets c) {s' : ActyServer}
    (hs : markStep s c = some s') : s'.Sound := by
  obtain ⟨⟨status, s''⟩, hcall, rfl⟩ := Option.map_eq_some_iff.mp hs
  have hbook := hcall
  rw [markCall_eq, markBook] at hbook
  obtain ⟨info, hb, hbook⟩ := Option.bind_eq_some_iff.mp hbook
  obtain ⟨owner, ho, -⟩ := Option.bind_eq_some_iff.mp hbook
  by_cases hstarts : (s.username owner).StartsWith (s.username c.host)
  · rw [markCall_of_startsWith hb ho hstarts] at hcall
    cases hcall
    exact h
  · obtain ⟨owner', ho', hm⟩ := hm info hb
    obtain rfl : owner = owner' := Option.some.inj (ho.symm.trans ho')
    rcases hm with heq | ⟨hnew, hstart, hr, ha, hroom⟩
    · rw [heq] at hstarts
      exact absurd (CString.startsWith_self _) hstarts
    · obtain ⟨s₁, hcall', hserver⟩ := markCall_of_meets hb ho hstart hr ha
      cases hcall.symm.trans hcall'
      exact (h.withRecord hb ho hstart hnew hroom).of_server hserver

end Call

end ActyServer

/-- In every run of wows and buys on books that nobody has marked, all calls are as they should
be exactly if all of them meet the condition, and then every state reached is accounted for. -/
theorem mark_run_accounted {s : ActyServer} (hs : s.Fresh) (calls : List MarkCall) :
    (Along markStep ActyServer.CallMeets s calls ↔ Along markStep ActyServer.Meets s calls) ∧
      ∀ s', Along markStep ActyServer.Meets s calls → runFrom markStep s calls = some s' →
        s'.Accounted := by
  have hstep : ∀ (s : ActyServer) c s', s.Sound → s.Meets c → markStep s c = some s' → s'.Sound :=
    fun s c s' h hm hs => h.step hm hs
  constructor
  · refine (along_iff_of_invariant hstep ?_ hs.sound).symm
    intro s c h
    exact h.callMeets_iff.symm
  · intro s' hmeets hrun
    exact (runFrom_invariant hstep hs.sound hmeets hrun).accounted

def readers : ActyServer where
  server := { Server.init with
    user := fun u => { UserInfo.zero with username :=
      if u = 0 then alex else if u = 1 then ⟨word ['E', 'v', 'e'], by decide⟩
      else ⟨word ['A', 'l'], by decide⟩ }
    book := Function.update (fun _ => none) 0 (some (newBookInfo 0 dune)) }
  activity _ := []
  numActy _ := 0

theorem readers_fresh : readers.Fresh := by
  intro b info hb m
  change Function.update (fun _ => none) 0 (some (newBookInfo 0 dune)) b = some info at hb
  by_cases h : b = 0
  · subst h
    rw [Function.update_self] at hb
    cases hb
    cases m <;> exact ⟨rfl, rfl⟩
  · rw [Function.update_of_ne h] at hb
    cases hb

def wowing (host : ℕ) (acty : Bool) : MarkCall := ⟨.wow, host, 0, ⟨0, CString.empty, true, acty⟩⟩

theorem wowing_meets : readers.Meets (wowing 1 true) := by
  rintro info ⟨⟩
  exact ⟨0, rfl, .inr (by decide)⟩

theorem mark_run_accounted_example :
    ∃ s', runFrom markStep readers [wowing 1 true] = some s' ∧ s'.Accounted := by
  refine ⟨_, rfl, (mark_run_accounted readers_fresh [wowing 1 true]).2 _ ?_ rfl⟩
  exact ⟨wowing_meets, fun _ _ => trivial⟩

def orphaned : ActyServer := readers.setBook 0 { newBookInfo 0 dune with owner := none }

/-- Eve may wow twice; Al is taken for Alex; without memory for the activity the record stays; and
the owner of a removed book is NULL. -/
theorem mark_run_not_accounted :
    ¬ Along markStep ActyServer.CallMeets readers [wowing 1 true, wowing 1 true] ∧
      ¬ Along markStep ActyServer.CallMeets readers [wowing 2 true] ∧
      ¬ Along markStep ActyServer.CallMeets readers [wowing 1 false] ∧
      ¬ Along markStep ActyServer.CallMeets orphaned [wowing 1 true] := by
  have hsound := readers_fresh.sound
  refine ⟨?_, ?_, ?_, ?_⟩
  · rintro ⟨-, hsecond⟩
    have hagain := (hsound.step wowing_meets rfl).callMeets_iff.mp (hsecond _ rfl).1
    obtain ⟨_, ⟨⟩, heq | ⟨hnew, -⟩⟩ := hagain _ rfl
    · exact absurd heq (by decide)
    · exact hnew (by decide)
  · rintro ⟨hcall, -⟩
    obtain ⟨_, ⟨⟩, heq | ⟨-, hstart, -⟩⟩ := hsound.callMeets_iff.mp hcall _ rfl
    · exact absurd heq (by decide)
    · exact hstart (by decide)
  · rintro ⟨hcall, -⟩
    obtain ⟨_, ⟨⟩, heq | ⟨-, -, -, hacty, -⟩⟩ := hsound.callMeets_iff.mp hcall _ rfl
    · exact absurd heq (by decide)
    · cases hacty
  · rintro ⟨hcall, -⟩
    obtain ⟨-, status, s', hs', -⟩ := hcall _ rfl
    cases hs'

end MorningProjects.ELibrary
