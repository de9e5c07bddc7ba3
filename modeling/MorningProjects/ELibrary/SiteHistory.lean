import MorningProjects.ELibrary.UserHistory
import MorningProjects.Library.While
import Mathlib.Data.List.DropRight

/-!
# The history of the site

`addUserActy` copies every text to the slot at the tail of a ring, without a terminator, and
never moves the tail. `briefGlabalBookHty` goes over the slots as long as it is at the tail,
so that it lists the first slot: there is room for one activity.
-/
namespace MorningProjects.ELibrary
open Library

def maxSysActiesAmount : ℕ := 30
def maxBriefLength : ℕ := 1000

/-! ### The ring -/

/-- The fields of `BOOK_LIBRARY` that the ring consists of. -/
structure BookLibrary where
  actyHeadOffset : UInt32
  actyTailOffset : UInt32
  activities : ℕ → List UInt8

/-- A slot that holds a text, with zeros behind it. -/
def slotOf (text : List UInt8) : List UInt8 :=
  text ++ List.replicate (maxActyLength - text.length) 0

def BookLibrary.zero : BookLibrary := ⟨0, 0, fun _ => slotOf []⟩

/-- `strncpy(slot, text, strlen(text))`: what lies behind the text stays. -/
def copyOver (text : CString) (slot : List UInt8) : List UInt8 :=
  text.bytes ++ slot.drop text.strlen

def BookLibrary.text (lib : BookLibrary) (i : ℕ) : CString := CString.ofField (lib.activities i)

structure SiteServer where
  acties : ActyServer
  bookTotal : BookLibrary

def ActyCall.text (server : Server) (c : ActyCall) : CString :=
  (c.entry (server.user c.host).username).acty

/-- `addUserActy`, with the slot it writes. -/
def siteStep (s : SiteServer) (c : ActyCall) : SiteServer where
  acties := actyStep s.acties c
  bookTotal :=
    if c.input.acty then
      { s.bookTotal with
        activities := Function.update s.bookTotal.activities s.bookTotal.actyTailOffset.toNat
          (copyOver (c.text s.acties.server)
            (s.bookTotal.activities s.bookTotal.actyTailOffset.toNat)) }
    else s.bookTotal

def siteRun (server : Server) (calls : List ActyCall) : SiteServer :=
  calls.foldl siteStep ⟨.unused server, .zero⟩

/-! ### The reply -/

def HistoryFilter.lists (slot : CString) : HistoryFilter → Bool
  | .of .byWow => slot.Contains ActyText.wow
  | .of .byBuy => slot.Contains ActyText.buy
  | .all | .of _ => true

/-- The body of the loop over the slots; no result when the reply has no room. -/
def briefHtyBody (lib : BookLibrary) (filter : HistoryFilter) (l : UInt32 × List UInt8) :
    Option (UInt32 × List UInt8) :=
  let slot := lib.text l.1.toNat
  let next := (l.1 + 1) % UInt32.ofNat maxSysActiesAmount
  if filter.lists slot then
    if l.2.length + slot.strlen < maxBriefLength then some (next, l.2 ++ slot.bytes) else none
  else some (next, l.2)

def BookLibrary.atTail (lib : BookLibrary) (l : UInt32 × List UInt8) : Bool :=
  l.1 = lib.actyTailOffset

/-- `briefGlabalBookHty`, if its loop ends within the given number of rounds; without memory
`memset` gets NULL. -/
def briefGlabalBookHty (rounds : ℕ) (malloc : Bool) (lib : BookLibrary) (filter : HistoryFilter) :
    Option (List UInt8) :=
  if malloc then
    (whileWithin lib.atTail (briefHtyBody lib filter) rounds (lib.actyHeadOffset, [])).map Prod.snd
  else none

/-! ### What has to hold -/

def recordedAll (calls : List ActyCall) : List ActyCall := calls.filter (·.input.acty)

/-- The calls of which a filter tells. -/
def HistoryFilter.keeps (c : ActyCall) : HistoryFilter → Bool
  | .all => true
  | .of filter => c.filter = filter

/-- The texts of the last calls, as many as the ring has room for. -/
def latestTexts (server : Server) (calls : List ActyCall) (room : ℕ) (filter : HistoryFilter) :
    List UInt8 :=
  (((recordedAll calls).rtake room).filter filter.keeps).flatMap fun c => (c.text server).bytes

/-- The reply lists the latest activities of the kind asked for, one slot of the ring may be kept
free, and no slot shows anything but the text of an activity. -/
structure RingMeets (server : Server) (calls : List ActyCall) (malloc : Bool) : Prop where
  latest : ∃ room, (room = maxSysActiesAmount ∨ room + 1 = maxSysActiesAmount) ∧
    ∀ filter ∈ [HistoryFilter.all, .of .byWow, .of .byBuy], ∃ rounds,
      briefGlabalBookHty rounds malloc (siteRun server calls).bookTotal filter =
        some (latestTexts server calls room filter)
  unmixed : ∀ i < maxActyLength, (siteRun server calls).bookTotal.text i = CString.empty ∨
    ∃ c ∈ recordedAll calls, (siteRun server calls).bookTotal.text i = c.text server

/-! ### The texts -/

/-- Every text has some length, and fits its slot with a terminator. -/
theorem actyText_length (filter : ActyFilter) (time username name : CString) :
    11 ≤ (actyText filter time username name).strlen ∧
      (actyText filter time username name).strlen < maxActyLength := by
  have hspace : ActyText.space.strlen = 1 := rfl
  have hjoined : ActyText.joined.strlen = 17 := rfl
  have hadded : ActyText.added.strlen = 8 := rfl
  have hbang : ActyText.bang.strlen = 2 := rfl
  have hconj : ActyText.conj.strlen = 5 := rfl
  have hfriends : ActyText.friendsNow.strlen = 17 := rfl
  have hdeleted : ActyText.deleted.strlen = 10 := rfl
  have hstop : ActyText.stop.strlen = 2 := rfl
  have hwow : ActyText.addedWow.strlen = 17 := rfl
  have hbuy : ActyText.addedBuy.strlen = 17 := rfl
  cases filter
  all_goals
    simp only [actyText, CString.strlen_strncpy, CString.strlen_concat, maxActyLength,
      List.map_append, List.map_cons, List.map_nil, List.sum_append, List.sum_cons, List.sum_nil]
    omega

/-! ### The first slot -/

/-- The string in a slot when a text was copied over another one. -/
def overlay (t s : CString) : CString :=
  ⟨t.bytes ++ s.bytes.drop t.strlen, fun h => (List.mem_append.mp h).elim t.noNul fun h =>
    s.noNul (List.mem_of_mem_drop h)⟩

def overlaid (texts : List CString) : CString := texts.foldl (fun s t => overlay t s) .empty

section Slot

variable {s t : CString} {texts : List CString}

theorem strlen_overlay (t s : CString) : (overlay t s).strlen = max t.strlen s.strlen := by
  have hlength : (overlay t s).strlen = t.strlen + (s.strlen - t.strlen) := by
    rw [CString.strlen, overlay, List.length_append, List.length_drop]
    rfl
  omega

theorem ofField_slotOf (s : CString) : CString.ofField (slotOf s.bytes) = s := by
  apply CString.ext
  have hstop : ∀ b ∈ s.bytes, decide (b ≠ 0) = true := by
    intro b hb
    exact decide_eq_true fun h => s.noNul (h ▸ hb)
  have hzeros : (List.replicate (maxActyLength - s.bytes.length) (0 : UInt8)).takeWhile
      (fun b => decide (b ≠ 0)) = [] := by
    cases maxActyLength - s.bytes.length <;> rfl
  rw [CString.ofField, slotOf]
  dsimp only
  rw [List.takeWhile_append_of_pos hstop, hzeros, List.append_nil]

theorem copyOver_slotOf (ht : t.strlen ≤ maxActyLength) :
    copyOver t (slotOf s.bytes) = slotOf (overlay t s).bytes := by
  have hlength : (overlay t s).bytes.length = max t.strlen s.strlen := strlen_overlay t s
  have hs : s.bytes.length = s.strlen := rfl
  rw [copyOver, slotOf, slotOf, hlength, overlay, List.drop_append, List.drop_replicate,
    List.append_assoc, hs]
  congr 3
  omega

theorem overlaid_concat (texts : List CString) (t : CString) :
    overlaid (texts ++ [t]) = overlay t (overlaid texts) := by
  rw [overlaid, List.foldl_append]
  rfl

theorem strlen_overlaid_le {n : ℕ} (h : ∀ t ∈ texts, t.strlen ≤ n) :
    (overlaid texts).strlen ≤ n := by
  induction texts using List.reverseRecOn with
  | nil => exact Nat.zero_le n
  | append_singleton texts t ih =>
    rw [overlaid_concat, strlen_overlay]
    exact max_le (h t (by simp)) (ih fun t' ht' => h t' (List.mem_append_left _ ht'))

theorem strlen_overlaid_le_sum (texts : List CString) :
    (overlaid texts).strlen ≤ (texts.map CString.strlen).sum := by
  apply strlen_overlaid_le
  intro t ht
  exact List.le_sum_of_mem (List.mem_map_of_mem ht)

theorem strlen_overlaid_lt_sum {texts : List CString} (hpos : ∀ t ∈ texts, 0 < t.strlen)
    (htwo : 2 ≤ texts.length) :
    (overlaid texts).strlen < (texts.map CString.strlen).sum := by
  rcases List.eq_nil_or_concat texts with rfl | ⟨front, t, rfl⟩
  · cases htwo
  · rw [List.concat_eq_append] at hpos htwo ⊢
    rw [List.length_append, List.length_singleton] at htwo
    obtain ⟨t', ht'⟩ := List.exists_mem_of_length_pos (by omega : 0 < front.length)
    have hfront : t'.strlen ≤ (front.map CString.strlen).sum :=
      List.le_sum_of_mem (List.mem_map_of_mem ht')
    have hsum := strlen_overlaid_le_sum front
    have hfirst := hpos t' (List.mem_append_left _ ht')
    have hlast := hpos t (by simp)
    rw [overlaid_concat, strlen_overlay, List.map_append, List.sum_append, List.map_singleton,
      List.sum_singleton]
    omega

end Slot

/-! ### The run -/

section Run

variable {server : Server} {calls : List ActyCall}

def allTexts (server : Server) (calls : List ActyCall) : List CString :=
  (recordedAll calls).map (·.text server)

theorem siteRun_concat (c : ActyCall) :
    siteRun server (calls ++ [c]) = siteStep (siteRun server calls) c := by
  rw [siteRun, List.foldl_append]
  rfl

theorem siteRun_acties : (siteRun server calls).acties = actyRun server calls := by
  induction calls using List.reverseRecOn with
  | nil => rfl
  | append_singleton calls c ih => rw [siteRun_concat, siteStep, ih, actyRun_concat]

theorem text_length (server : Server) (c : ActyCall) :
    11 ≤ (c.text server).strlen ∧ (c.text server).strlen < maxActyLength :=
  actyText_length _ _ _ _

theorem allTexts_length {t : CString} (ht : t ∈ allTexts server calls) :
    11 ≤ t.strlen ∧ t.strlen < maxActyLength := by
  obtain ⟨c, -, rfl⟩ := List.mem_map.mp ht
  exact text_length server c

theorem allTexts_concat (c : ActyCall) : allTexts server (calls ++ [c]) =
    allTexts server calls ++ if c.input.acty then [c.text server] else [] := by
  rw [allTexts, allTexts, recordedAll, recordedAll, List.filter_append, List.map_append]
  congr 1
  cases hacty : c.input.acty <;> simp [hacty]

theorem siteRun_bookTotal (server : Server) (calls : List ActyCall) :
    (siteRun server calls).bookTotal = ⟨0, 0, Function.update (fun _ => slotOf []) 0
      (slotOf (overlaid (allTexts server calls)).bytes)⟩ := by
  induction calls using List.reverseRecOn with
  | nil =>
    have hnone : Function.update (fun _ : ℕ => slotOf []) 0 (slotOf []) = fun _ => slotOf [] :=
      Function.update_eq_self 0 _
    exact congrArg (BookLibrary.mk 0 0) hnone.symm
  | append_singleton calls c ih =>
    rw [siteRun_concat, siteStep, allTexts_concat]
    dsimp only
    cases c.input.acty with
    | false => rw [if_neg Bool.false_ne_true, if_neg Bool.false_ne_true, List.append_nil, ih]
    | true =>
      have hserver : (siteRun server calls).acties.server = server := by
        rw [siteRun_acties, actyRun_server]
      rw [if_pos rfl, if_pos rfl, ih, hserver, overlaid_concat]
      dsimp only
      rw [UInt32.toNat_zero, Function.update_self, Function.update_idem,
        copyOver_slotOf (text_length server c).2.le]

end Run

/-! ### The listing -/

section Listing

variable {server : Server} {calls : List ActyCall} {malloc : Bool}

theorem text_zero (server : Server) (calls : List ActyCall) :
    (siteRun server calls).bookTotal.text 0 = overlaid (allTexts server calls) := by
  rw [siteRun_bookTotal, BookLibrary.text]
  dsimp only
  rw [Function.update_self, ofField_slotOf]

theorem text_of_ne {i : ℕ} (hi : i ≠ 0) :
    (siteRun server calls).bookTotal.text i = CString.empty := by
  rw [siteRun_bookTotal, BookLibrary.text]
  dsimp only
  rw [Function.update_of_ne hi]
  exact ofField_slotOf .empty

/-- The loop passes the first slot, and then it is no longer at the tail. -/
theorem briefGlabalBookHty_succ (server : Server) (calls : List ActyCall) (rounds : ℕ)
    (filter : HistoryFilter) :
    briefGlabalBookHty (rounds + 1) true (siteRun server calls).bookTotal filter =
      some (if filter.lists (overlaid (allTexts server calls)) then
        (overlaid (allTexts server calls)).bytes else []) := by
  have htext := text_zero server calls
  have hhead : (siteRun server calls).bookTotal.actyHeadOffset = 0 := by rw [siteRun_bookTotal]
  have htail : (siteRun server calls).bookTotal.actyTailOffset = 0 := by rw [siteRun_bookTotal]
  have hroom : (overlaid (allTexts server calls)).strlen ≤ maxActyLength :=
    strlen_overlaid_le fun t ht => (allTexts_length ht).2.le
  have hbrief : maxActyLength < maxBriefLength := by decide
  have hbody : briefHtyBody (siteRun server calls).bookTotal filter (0, []) =
      some (1, if filter.lists (overlaid (allTexts server calls)) then
        (overlaid (allTexts server calls)).bytes else []) := by
    rw [briefHtyBody]
    dsimp only
    rw [UInt32.toNat_zero, htext]
    split_ifs with hlists hfits
    · rfl
    · rw [List.length_nil] at hfits
      omega
    · rfl
  have hstart : (siteRun server calls).bookTotal.atTail (0, []) = true := by
    rw [BookLibrary.atTail, htail]
    rfl
  have hstop : ∀ reply, (siteRun server calls).bookTotal.atTail (1, reply) = false := by
    intro reply
    rw [BookLibrary.atTail, htail]
    rfl
  rw [briefGlabalBookHty, if_pos rfl, hhead, whileWithin, if_pos hstart, hbody, Option.bind_some,
    whileWithin_of_not (hstop _)]
  rfl

theorem briefGlabalBookHty_iff (server : Server) (calls : List ActyCall) (malloc : Bool)
    (filter : HistoryFilter) (reply : List UInt8) :
    (∃ rounds, briefGlabalBookHty rounds malloc (siteRun server calls).bookTotal filter =
        some reply) ↔
      malloc = true ∧ reply = if filter.lists (overlaid (allTexts server calls)) then
        (overlaid (allTexts server calls)).bytes else [] := by
  cases malloc with
  | false =>
    constructor
    · rintro ⟨rounds, h⟩
      cases h
    · exact fun h => absurd h.1 Bool.false_ne_true
  | true =>
    constructor
    · rintro ⟨rounds, h⟩
      refine ⟨rfl, ?_⟩
      cases rounds with
      | zero =>
        have hgo : (siteRun server calls).bookTotal.atTail
            ((siteRun server calls).bookTotal.actyHeadOffset, []) = true := by
          rw [siteRun_bookTotal]
          rfl
        rw [briefGlabalBookHty, if_pos rfl, whileWithin, if_pos hgo] at h
        cases h
      | succ rounds =>
        rw [briefGlabalBookHty_succ] at h
        exact (Option.some.inj h).symm
    · rintro ⟨-, rfl⟩
      exact ⟨1, briefGlabalBookHty_succ server calls 0 filter⟩

/-- Of two activities or more no room lists as little as the first slot. -/
theorem overlaid_ne_latestTexts {room : ℕ} (hroom : maxSysActiesAmount ≤ room + 1)
    (htwo : 2 ≤ (recordedAll calls).length) :
    (overlaid (allTexts server calls)).bytes ≠ latestTexts server calls room .all := by
  intro h
  have hlength := congrArg List.length h
  have hkeeps : ∀ l : List ActyCall, l.filter (HistoryFilter.keeps · .all) = l :=
    fun l => List.filter_eq_self.mpr fun _ _ => rfl
  have hall : latestTexts server calls room .all =
      ((recordedAll calls).rtake room).flatMap fun c => (c.text server).bytes := by
    rw [latestTexts, hkeeps]
  have hsum : (((recordedAll calls).rtake room).flatMap fun c => (c.text server).bytes).length =
      (((recordedAll calls).rtake room).map fun c => (c.text server).strlen).sum :=
    List.length_flatMap
  rw [hall, hsum] at hlength
  by_cases hfew : (recordedAll calls).length ≤ room
  · have hrtake : (recordedAll calls).rtake room = recordedAll calls := by
      rw [List.rtake, Nat.sub_eq_zero_of_le hfew, List.drop_zero]
    have hpos : ∀ t ∈ allTexts server calls, 0 < t.strlen := by
      intro t ht
      have := allTexts_length ht
      omega
    have hlt := strlen_overlaid_lt_sum hpos (by rwa [allTexts, List.length_map])
    rw [allTexts, List.map_map] at hlt
    rw [hrtake] at hlength
    exact absurd hlength hlt.ne
  · have hmany : ((recordedAll calls).rtake room).length = room := by
      rw [List.rtake, List.length_drop]
      omega
    have hle : ((recordedAll calls).rtake room).length • 11 ≤
        (((recordedAll calls).rtake room).map fun c => (c.text server).strlen).sum := by
      rw [← List.length_map (fun c : ActyCall => (c.text server).strlen)]
      apply List.card_nsmul_le_sum
      intro n hn
      obtain ⟨c, -, rfl⟩ := List.mem_map.mp hn
      exact (text_length server c).1
    have hmax : (overlaid (allTexts server calls)).strlen ≤ maxActyLength :=
      strlen_overlaid_le fun t ht => (allTexts_length ht).2.le
    have hbytes : (overlaid (allTexts server calls)).bytes.length =
      (overlaid (allTexts server calls)).strlen := rfl
    rw [hmany, smul_eq_mul] at hle
    simp only [maxSysActiesAmount, maxActyLength] at hroom hmax
    omega

end Listing

/-! ### The claims of the ring -/

theorem lists_mark (m : Mark) (slot : CString) :
    HistoryFilter.lists slot (.of m.filter) = decide (slot.Contains m.act) := by
  cases m <;> rfl

/-- A single activity is listed under a mark exactly if the mark's word is in its text. -/
theorem latestTexts_mark {server : Server} {calls : List ActyCall} {c : ActyCall}
    (hone : recordedAll calls = [c]) {room : ℕ} (hroom : 0 < room) (m : Mark) :
    (latestTexts server calls room (.of m.filter) =
      if HistoryFilter.lists (c.text server) (.of m.filter) then (c.text server).bytes else []) ↔
      ((c.text server).Contains m.act ↔ c.filter = m.filter) := by
  have hrtake : [c].rtake room = [c] := by
    rw [List.rtake, List.length_singleton, Nat.sub_eq_zero_of_le hroom, List.drop_zero]
  have hne : (c.text server).bytes ≠ [] := by
    intro hnil
    have hlength := (text_length server c).1
    rw [CString.strlen, hnil, List.length_nil] at hlength
    omega
  rw [latestTexts, hone, hrtake, lists_mark, List.filter_singleton, HistoryFilter.keeps]
  by_cases hkind : c.filter = m.filter <;> by_cases hword : (c.text server).Contains m.act
  · simp [hkind, hword]
  · simp [hkind, hword, hne]
  · simp [hkind, hword, hne.symm]
  · simp [hkind, hword]

theorem overlaid_singleton (t : CString) : overlaid [t] = t := by
  apply CString.ext
  change t.bytes ++ [].drop t.strlen = t.bytes
  rw [List.drop_nil, List.append_nil]

/-- The ring is what it should be exactly while it holds one activity at most, with the words WOW
and BUY in the text of its own kind only, and as long as there is memory for the reply. -/
theorem siteHistory_meets_iff (server : Server) (calls : List ActyCall) (malloc : Bool) :
    RingMeets server calls malloc ↔ malloc = true ∧ (recordedAll calls = [] ∨
      ∃ c, recordedAll calls = [c] ∧
        ∀ m : Mark, (c.text server).Contains m.act ↔ c.filter = m.filter) := by
  constructor
  · rintro ⟨⟨room, hroom, hlist⟩, -⟩
    have hmany : maxSysActiesAmount ≤ room + 1 := by omega
    have hpos : 0 < room := by
      simp only [maxSysActiesAmount] at hmany
      omega
    obtain ⟨hmalloc, hall⟩ := (briefGlabalBookHty_iff ..).mp (hlist .all (by simp))
    refine ⟨hmalloc, ?_⟩
    cases hcalls : recordedAll calls with
    | nil => exact Or.inl rfl
    | cons c rest =>
      cases rest with
      | nil =>
        refine Or.inr ⟨c, rfl, fun m => ?_⟩
        have hmem : HistoryFilter.of m.filter ∈
            [HistoryFilter.all, .of .byWow, .of .byBuy] := by
          cases m <;> simp [Mark.filter]
        have hmark := ((briefGlabalBookHty_iff ..).mp (hlist (.of m.filter) hmem)).2
        rw [allTexts, hcalls, List.map_singleton, overlaid_singleton] at hmark
        exact (latestTexts_mark hcalls hpos m).mp hmark
      | cons c' rest =>
        exact absurd hall.symm (overlaid_ne_latestTexts hmany (by rw [hcalls]; simp))
  · rintro ⟨rfl, hfew⟩
    refine ⟨⟨maxSysActiesAmount, Or.inl rfl, ?_⟩, ?_⟩
    · intro filter hfilter
      rw [briefGlabalBookHty_iff]
      refine ⟨rfl, ?_⟩
      rcases hfew with hnone | ⟨c, hone, hmarks⟩
      · rw [latestTexts, allTexts, hnone]
        exact (ite_self []).symm
      · rw [allTexts, hone, List.map_singleton, overlaid_singleton]
        simp only [List.mem_cons, List.not_mem_nil, or_false] at hfilter
        rcases hfilter with rfl | rfl | rfl
        · rw [latestTexts, hone]
          exact List.append_nil _
        · exact (latestTexts_mark hone (by decide) .wow).mpr (hmarks .wow)
        · exact (latestTexts_mark hone (by decide) .buy).mpr (hmarks .buy)
    · intro i _
      by_cases hi : i = 0
      · subst hi
        rw [text_zero]
        rcases hfew with hnone | ⟨c, hone, -⟩
        · rw [allTexts, hnone]
          exact Or.inl rfl
        · rw [allTexts, hone, List.map_singleton, overlaid_singleton]
          exact Or.inr ⟨c, List.mem_singleton_self c, rfl⟩
      · exact Or.inl (text_of_ne hi)

/-- A second activity, shorter than the first, is listed with the end of the first one's text. -/
theorem siteHistory_mixed :
    ¬ RingMeets readers.server [wowingDune, addingWow] true ∧
      ((siteRun readers.server [wowingDune, addingWow]).bookTotal.text 0).bytes =
        (addingWow.text readers.server).bytes ++
          (wowingDune.text readers.server).bytes.drop (addingWow.text readers.server).strlen := by
  refine ⟨?_, by decide⟩
  rintro ⟨⟨room, hroom, hlist⟩, -⟩
  obtain ⟨-, hall⟩ := (briefGlabalBookHty_iff ..).mp (hlist .all (by simp))
  exact overlaid_ne_latestTexts (by omega) (by decide) hall.symm

end MorningProjects.ELibrary
