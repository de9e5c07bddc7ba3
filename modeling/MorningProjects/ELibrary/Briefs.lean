import MorningProjects.ELibrary.Messages
import MorningProjects.ELibrary.SiteHistory
import MorningProjects.Library.Format

/-!
# The replies that list something

Each of the four functions appends an entry for every node of a list to a header. Only one
of them looks at the room in the reply, and it is the one that has written no header before
it looks; the loops over contacts and messages go on behind the end of a list with more than
four nodes.
-/
namespace MorningProjects.ELibrary.Brief
open Library

/-! ### The texts -/

def newline : Char := Char.ofNat 10

def noBooks : List UInt8 := word ['T', 'h', 'e', 'r', 'e', ' ', 'a', 'r', 'e', ' ', 'n', 'o', ' ',
  'b', 'o', 'o', 'k', 's', ' ', 'o', 'n', ' ', 't', 'h', 'e', ' ', 's', 'h', 'e', 'l', 'f', ' ',
  'y', 'e', 't', '!', newline]
def thereAre : List UInt8 := word ['T', 'h', 'e', 'r', 'e', ' ', 'a', 'r', 'e', ' ']
def booksOnShelf : List UInt8 := word [' ', 'b', 'o', 'o', 'k', 's', ' ', 'o', 'n', ' ', 't', 'h',
  'e', ' ', 's', 'h', 'e', 'l', 'f', '.']
def openBracket : List UInt8 := word [' ', '[']
def closeBracket : List UInt8 := word [']', ' ']
def wows : List UInt8 := word [' ', 'W', 'O', 'W', 's', ' ']
def buys : List UInt8 := word [' ', 'B', 'U', 'Y', 's', '.', newline]
def noActivities : List UInt8 := word ['T', 'h', 'e', 'r', 'e', ' ', 'a', 'r', 'e', ' ', 'n', 'o',
  ' ', 'a', 'c', 't', 'i', 'v', 'i', 't', 'i', 'e', 's', ' ', 'y', 'e', 't', '!', newline]
def colon : List UInt8 := word [':', ' ']
def lineEnd : List UInt8 := word [newline]
def emptyInbox : List UInt8 := word ['Y', 'o', 'u', 'r', ' ', 'm', 's', 'g', ' ', 'i', 'n', 'b',
  'o', 'x', ' ', 'i', 's', ' ', 'e', 'm', 'p', 't', 'y', '.', newline]
def inInbox : List UInt8 := word [' ', 'm', 'e', 's', 's', 'a', 'g', 'e', 's', ' ', 'i', 'n', ' ',
  'y', 'o', 'u', 'r', ' ', 'i', 'n', 'b', 'o', 'x', ',', ' ']
def unreadEnd : List UInt8 := word [' ', 'u', 'n', 'r', 'e', 'a', 'd', '.', newline]
def systemError : List UInt8 := word ['S', 'y', 's', 't', 'e', 'm', ' ', 'e', 'r', 'r', 'o', 'r',
  '.', newline]
def boxStart : List UInt8 := word [' ', ' ', ' ', ' ', ' ', ' ', ' ', ' ', '[']
def between : List UInt8 := word [']', '[']
def boxMsg : List UInt8 := word [']', '-']
def received : List UInt8 := word ['r', 'e', 'c', 'e', 'i', 'v', 'e', 'd']
def sent : List UInt8 := word ['s', 'e', 'n', 't']
def unread : List UInt8 := word ['u', 'n', 'r', 'e', 'a', 'd']
def read : List UInt8 := word ['r', 'e', 'a', 'd']
def dots : List UInt8 := word ['.', '.', '.']
def messages : List UInt8 := word [' ', 'm', 'e', 's', 's', 'a', 'g', 'e', 's', ',', ' ']
def contextStart : List UInt8 := word ['[']
def contextMsg : List UInt8 := word [']', ':', ' ']

/-! ### The four replies -/

/-- A book with the fields of `BOOK_INFO` that its entry is made of. -/
structure BookEntry where
  info : BookInfo
  group : UInt32

/-- A reply, which is NULL without memory; no result stands for an undefined access. -/
abbrev Reply := Option (Option (List UInt8))

def bookEntry (current : BookEntry) : List UInt8 :=
  snprintf maxActyLength [current.info.name.bytes, openBracket, percentD current.group,
    closeBracket, percentD current.info.numWow, wows, percentD current.info.numBuy, buys]

def booksHeader (numBooks : UInt32) : List UInt8 :=
  snprintf maxBriefLength [thereAre, percentD numBooks, booksOnShelf]

def briefBooks (malloc : Bool) (numBooks : UInt32) (books : List BookEntry) : Reply :=
  if malloc then
    if numBooks = 0 ∨ books = [] then some (some noBooks)
    else ((books.map bookEntry).foldlM (strncat maxBriefLength) (booksHeader numBooks)).map some
  else some none

def actyEntry (myAscTimeLite : ℕ → CString) (current : Acty) : List UInt8 :=
  snprintf maxActyLength [(myAscTimeLite current.timestamp).bytes, colon, current.acty.bytes,
    lineEnd]

/-- The loop of `briefActy`; `strlen` of a buffer that was not written has no result. -/
def actyLoop (entry : Acty → List UInt8) : Option (List UInt8) → List Acty → Option (List UInt8)
  | rtnMsg, [] => rtnMsg
  | rtnMsg, current :: rest =>
    rtnMsg.bind fun text =>
      if maxBriefLength ≤ text.length + (entry current).length then some text
      else actyLoop entry (strncat maxBriefLength text (entry current)) rest

def briefActy (myAscTimeLite : ℕ → CString) (malloc : Bool) (numActy : UInt32)
    (activities : List Acty) : Reply :=
  if malloc then
    if numActy = 0 ∨ activities = [] then some (some noActivities)
    else (actyLoop (actyEntry myAscTimeLite) none activities).map some
  else some none

/-- The loops over contacts and messages, with `NULL != current || counter > 4`; a node may have
no entry. -/
def briefLoop {α : Type*} (entry : α → Option (List UInt8)) :
    UInt32 → List α → List UInt8 → Option (List UInt8)
  | counter, [], rtnMsg => if counter > 4 then none else some rtnMsg
  | counter, current :: rest, rtnMsg =>
    (match entry current with
      | none => some rtnMsg
      | some buf => strncat maxBriefLength rtnMsg buf).bind (briefLoop entry (counter + 1) rest)

def ioText (io : MsgDirection) : List UInt8 := if .receiptIn = io then received else sent

def unreadText (isUnread : Bool) : List UInt8 := if isUnread then unread else read

/-- The entry of a contact: its latest message, cut to ten characters. -/
def boxEntry (myAscTimeLite : ℕ → CString) (current : MsgNode) : Option (List UInt8) :=
  current.contexts.head?.map fun context =>
    snprintf 66 [boxStart, padded 10 current.contact.bytes, between,
      padded 9 (myAscTimeLite context.datetime).bytes, between, padded 8 (ioText context.io),
      between, unreadText context.unread, boxMsg, context.msg.bytes.take 10,
      if context.msg.strlen > 10 then dots else [], lineEnd]

def boxHeader (box : MsgBox) : List UInt8 :=
  snprintf maxBriefLength [thereAre, percentD box.numMsg, inInbox, percentD box.numUnread,
    unreadEnd]

def briefMsgBox (myAscTimeLite : ℕ → CString) (malloc : Bool) (host : Option UserInfo) : Reply :=
  if malloc then
    match host with
    | none => some (some systemError)
    | some host =>
      if host.msgBox.numMsg = 0 then some (some emptyInbox)
      else (briefLoop (boxEntry myAscTimeLite) 0 host.msgBox.msgs (boxHeader host.msgBox)).map some
  else some none

def contextEntry (myAscTimeLite : ℕ → CString) (current : MsgFormat) : List UInt8 :=
  snprintf 56 [contextStart, padded 9 (myAscTimeLite current.datetime).bytes, between,
    padded 8 (ioText current.io), between, unreadText current.unread, contextMsg,
    padded 10 current.msg.bytes, if current.msg.strlen > 11 then dots else [], lineEnd]

def contextsHeader (node : MsgNode) : List UInt8 :=
  snprintf maxBriefLength [thereAre, percentD node.numMsg, messages, percentD node.numUnread,
    unreadEnd]

/-- `briefMsgContexts`, with the node afterwards; for a node that is NULL it writes to NULL. -/
def briefMsgContexts (myAscTimeLite : ℕ → CString) (malloc : Bool) (msgNode : Option MsgNode) :
    Option (Option (List UInt8) × MsgNode) :=
  msgNode.bind fun node =>
    if malloc then
      (briefLoop (some ∘ contextEntry myAscTimeLite) 0 node.contexts (contextsHeader node)).map
        fun rtnMsg => (some rtnMsg, { node with numUnread := 0 })
    else some (none, node)

/-! ### What has to hold -/

/-- The call comes back, and the reply, if there is memory for it, has room in its buffer and is
the beginning of the whole text. -/
def BriefMeets (whole : List UInt8) (r : Reply) : Prop :=
  ∃ reply, r = some reply ∧
    ∀ text, reply = some text → text.length < maxBriefLength ∧ text <+: whole

def listing {α : Type*} (header : List UInt8) (entry : α → Option (List UInt8)) (nodes : List α) :
    List UInt8 :=
  header ++ (nodes.filterMap entry).flatten

def booksText (numBooks : UInt32) (books : List BookEntry) : List UInt8 :=
  if numBooks = 0 ∨ books = [] then noBooks
  else listing (booksHeader numBooks) (some ∘ bookEntry) books

def actiesText (myAscTimeLite : ℕ → CString) (numActy : UInt32) (activities : List Acty) :
    List UInt8 :=
  if numActy = 0 ∨ activities = [] then noActivities
  else listing [] (some ∘ actyEntry myAscTimeLite) activities

def boxText (myAscTimeLite : ℕ → CString) : Option UserInfo → List UInt8
  | none => systemError
  | some host =>
    if host.msgBox.numMsg = 0 then emptyInbox
    else listing (boxHeader host.msgBox) (boxEntry myAscTimeLite) host.msgBox.msgs

def contextsText (myAscTimeLite : ℕ → CString) : Option MsgNode → List UInt8
  | none => systemError
  | some node => listing (contextsHeader node) (some ∘ contextEntry myAscTimeLite) node.contexts

/-! ### The loops -/

section Loops

variable {α : Type*} {entry : α → Option (List UInt8)} {text : List UInt8}

/-- A loop comes to the end of its list with room for all entries, and stops there if it has
counted to four at most. -/
theorem briefLoop_eq (counter : UInt32) (nodes : List α) (h : text.length < maxBriefLength) :
    briefLoop entry counter nodes text =
      if (listing text entry nodes).length < maxBriefLength ∧
          counter + UInt32.ofNat nodes.length ≤ 4 then some (listing text entry nodes)
      else none := by
  induction nodes generalizing counter text with
  | nil =>
    have hall : listing text entry [] = text := List.append_nil text
    rw [briefLoop, hall, List.length_nil]
    by_cases hcounter : counter > 4
    · rw [if_pos hcounter, if_neg]
      rintro ⟨-, hle⟩
      exact UInt32.not_le.mpr hcounter (by simpa using hle)
    · rw [if_neg hcounter, if_pos]
      exact ⟨h, by simpa using UInt32.not_lt.mp hcounter⟩
  | cons current rest ih =>
    have hcount : counter + 1 + UInt32.ofNat rest.length =
        counter + UInt32.ofNat (current :: rest).length := by
      rw [List.length_cons, UInt32.ofNat_add, UInt32.add_assoc, UInt32.add_comm 1]
      rfl
    rw [briefLoop]
    cases hentry : entry current with
    | none =>
      have hskip : listing text entry (current :: rest) = listing text entry rest := by
        rw [listing, listing, List.filterMap_cons_none hentry]
      dsimp only
      rw [Option.bind_some, ih (counter + 1) h, hcount, hskip]
    | some buf =>
      have hnext : listing text entry (current :: rest) = listing (text ++ buf) entry rest := by
        rw [listing, listing, List.filterMap_cons_some hentry, List.flatten_cons,
          List.append_assoc]
      dsimp only
      rw [strncat, hnext, ← hcount]
      by_cases hfits : text.length + buf.length < maxBriefLength
      · rw [if_pos hfits, Option.bind_some, ih (counter + 1) (by rwa [List.length_append])]
      · rw [if_neg hfits, if_neg]
        · rfl
        · rw [listing, List.length_append, List.length_append]
          omega

theorem listing_length_le (text : List UInt8) (nodes : List α) {n : ℕ}
    (hentry : ∀ a buf, entry a = some buf → buf.length ≤ n) :
    (listing text entry nodes).length ≤ text.length + n * nodes.length := by
  have hentries : (nodes.filterMap entry).flatten.length ≤ n * nodes.length := by
    induction nodes with
    | nil => exact Nat.zero_le _
    | cons current rest ih =>
      rw [List.length_cons, Nat.mul_succ]
      cases hcurrent : entry current with
      | none =>
        rw [List.filterMap_cons_none hcurrent]
        omega
      | some buf =>
        have hbuf := hentry current buf hcurrent
        rw [List.filterMap_cons_some hcurrent, List.flatten_cons, List.length_append]
        omega
  rw [listing, List.length_append]
  omega

theorem length_le_listing (text : List UInt8) (nodes : List α) {entry : α → List UInt8}
    (hentry : ∀ a, entry a ≠ []) :
    nodes.length ≤ (listing text (some ∘ entry) nodes).length := by
  have hentries : nodes.length ≤ (nodes.filterMap (some ∘ entry)).flatten.length := by
    induction nodes with
    | nil => exact Nat.zero_le _
    | cons current rest ih =>
      have hbuf := List.length_pos_iff.mpr (hentry current)
      rw [List.length_cons, List.filterMap_cons_some (rfl : (some ∘ entry) current = _),
        List.flatten_cons, List.length_append]
      omega
  rw [listing, List.length_append]
  omega

/-- On a buffer that holds a text the loop of `briefActy` keeps to the room and to the order. -/
theorem actyLoop_bounded (entry : Acty → List UInt8) (activities : List Acty)
    (h : text.length < maxBriefLength) :
    ∃ rtnMsg, actyLoop entry (some text) activities = some rtnMsg ∧
      rtnMsg.length < maxBriefLength ∧ rtnMsg <+: text ++ (activities.map entry).flatten := by
  induction activities generalizing text with
  | nil => exact ⟨text, rfl, h, List.prefix_append _ _⟩
  | cons current rest ih =>
    rw [actyLoop, Option.bind_some]
    by_cases hfull : maxBriefLength ≤ text.length + (entry current).length
    · rw [if_pos hfull]
      exact ⟨text, rfl, h, List.prefix_append _ _⟩
    · rw [if_neg hfull, strncat, if_pos (not_le.mp hfull)]
      have hfits := not_le.mp hfull
      rw [← List.length_append] at hfits
      obtain ⟨rtnMsg, hloop, hroom, hprefix⟩ := ih hfits
      refine ⟨rtnMsg, hloop, hroom, ?_⟩
      rwa [List.map_cons, List.flatten_cons, ← List.append_assoc]

end Loops

/-! ### The replies -/

section Replies

variable {malloc : Bool} {whole text : List UInt8}

theorem briefMeets_ite {p : Prop} [Decidable p] (h : p → whole.length < maxBriefLength) :
    BriefMeets whole ((if p then some whole else none).map some) ↔ p := by
  constructor
  · rintro ⟨reply, hreply, -⟩
    by_contra hp
    rw [if_neg hp] at hreply
    cases hreply
  · intro hp
    rw [if_pos hp]
    refine ⟨some whole, rfl, ?_⟩
    rintro text ⟨⟩
    exact ⟨h hp, List.prefix_refl whole⟩

theorem briefMeets_whole (h : whole.length < maxBriefLength) :
    BriefMeets whole (some (some whole)) := by
  refine ⟨some whole, rfl, ?_⟩
  rintro text ⟨⟩
  exact ⟨h, List.prefix_refl whole⟩

theorem briefMeets_null : BriefMeets whole (some none) := ⟨none, rfl, nofun⟩

theorem snprintf_lt (parts : List (List UInt8)) :
    (snprintf maxBriefLength parts).length < maxBriefLength :=
  (length_snprintf_le maxBriefLength parts).trans_lt (by decide)

theorem briefBooks_meets_iff (numBooks : UInt32) (books : List BookEntry) :
    BriefMeets (booksText numBooks books) (briefBooks malloc numBooks books) ↔
      malloc = false ∨ (booksText numBooks books).length < maxBriefLength := by
  cases malloc with
  | false => exact ⟨fun _ => Or.inl rfl, fun _ => briefMeets_null⟩
  | true =>
    rw [briefBooks, if_pos rfl, booksText]
    by_cases hempty : numBooks = 0 ∨ books = []
    · rw [if_pos hempty, if_pos hempty]
      have hroom : noBooks.length < maxBriefLength := by decide
      exact ⟨fun _ => Or.inr hroom, fun _ => briefMeets_whole hroom⟩
    · have hall : books.filterMap (some ∘ bookEntry) = books.map bookEntry :=
        congrFun List.filterMap_eq_map books
      have hheader : (booksHeader numBooks).length < maxBriefLength := snprintf_lt _
      rw [if_neg hempty, if_neg hempty, foldlM_strncat _ _ hheader, listing, hall,
        ← List.length_append, briefMeets_ite id]
      exact ⟨Or.inr, fun h => h.resolve_left Bool.noConfusion⟩

theorem briefActy_meets_iff (myAscTimeLite : ℕ → CString) (numActy : UInt32)
    (activities : List Acty) :
    BriefMeets (actiesText myAscTimeLite numActy activities)
        (briefActy myAscTimeLite malloc numActy activities) ↔
      malloc = false ∨ numActy = 0 ∨ activities = [] := by
  cases malloc with
  | false => exact ⟨fun _ => Or.inl rfl, fun _ => briefMeets_null⟩
  | true =>
    rw [briefActy, if_pos rfl, actiesText]
    by_cases hempty : numActy = 0 ∨ activities = []
    · rw [if_pos hempty, if_pos hempty]
      exact ⟨fun _ => Or.inr hempty, fun _ => briefMeets_whole (by decide)⟩
    · rw [if_neg hempty, if_neg hempty]
      have hloop : actyLoop (actyEntry myAscTimeLite) none activities = none := by
        cases activities with
        | nil => exact absurd (Or.inr rfl) hempty
        | cons current rest => rfl
      rw [hloop]
      constructor
      · rintro ⟨reply, hreply, -⟩
        cases hreply
      · rintro (hnull | hempty')
        · cases hnull
        · exact absurd hempty' hempty

theorem length_header_le (first second third : List UInt8) (n m : UInt32) :
    (snprintf maxBriefLength [first, percentD n, second, percentD m, third]).length ≤
      first.length + second.length + third.length + 22 := by
  have hn := length_percentD_le n
  have hm := length_percentD_le m
  rw [snprintf, List.length_take]
  simp only [List.flatten_cons, List.flatten_nil, List.length_append, List.length_nil]
  omega

theorem briefMsgBox_meets_iff (myAscTimeLite : ℕ → CString) (host : Option UserInfo) :
    BriefMeets (boxText myAscTimeLite host) (briefMsgBox myAscTimeLite malloc host) ↔
      malloc = false ∨ ∀ info, host = some info → info.msgBox.numMsg ≠ 0 →
        (boxText myAscTimeLite host).length < maxBriefLength ∧
          UInt32.ofNat info.msgBox.msgs.length ≤ 4 := by
  cases malloc with
  | false => exact ⟨fun _ => Or.inl rfl, fun _ => briefMeets_null⟩
  | true =>
    cases host with
    | none =>
      have hroom : systemError.length < maxBriefLength := by decide
      exact ⟨fun _ => Or.inr nofun, fun _ => briefMeets_whole hroom⟩
    | some info =>
      dsimp only [briefMsgBox, boxText]
      rw [if_pos rfl]
      by_cases hempty : info.msgBox.numMsg = 0
      · rw [if_pos hempty, if_pos hempty]
        refine ⟨fun _ => Or.inr ?_, fun _ => briefMeets_whole (by decide)⟩
        rintro info' ⟨⟩ hne
        exact absurd hempty hne
      · have hheader : (boxHeader info.msgBox).length < maxBriefLength := snprintf_lt _
        rw [if_neg hempty, if_neg hempty, briefLoop_eq 0 _ hheader, UInt32.zero_add,
          briefMeets_ite And.left]
        constructor
        · rintro h
          refine Or.inr ?_
          rintro info' ⟨⟩ -
          exact h
        · rintro (hnull | h)
          · cases hnull
          · exact h info rfl hempty

theorem boxText_of_le_four (myAscTimeLite : ℕ → CString) {info : UserInfo}
    (h : info.msgBox.msgs.length ≤ 4) :
    (boxText myAscTimeLite (some info)).length < maxBriefLength ∧
      UInt32.ofNat info.msgBox.msgs.length ≤ 4 := by
  constructor
  · rw [boxText]
    split_ifs
    · decide
    · have hheader := length_header_le thereAre inInbox unreadEnd info.msgBox.numMsg
        info.msgBox.numUnread
      have hentry : ∀ node buf, boxEntry myAscTimeLite node = some buf → buf.length ≤ 65 := by
        intro node buf hbuf
        obtain ⟨context, -, rfl⟩ := Option.map_eq_some_iff.mp hbuf
        exact length_snprintf_le 66 _
      have hall := listing_length_le (boxHeader info.msgBox) info.msgBox.msgs hentry
      have htexts : thereAre.length + inInbox.length + unreadEnd.length = 44 := by decide
      rw [boxHeader] at hall
      rw [boxHeader, maxBriefLength]
      simp only [maxBriefLength] at hall hheader
      omega
  · rw [UInt32.le_iff_toNat_le, UInt32.toNat_ofNat']
    exact (Nat.mod_le _ _).trans h

theorem contextEntry_ne_nil (myAscTimeLite : ℕ → CString) (current : MsgFormat) :
    contextEntry myAscTimeLite current ≠ [] := by
  rw [contextEntry, snprintf, List.flatten_cons]
  exact List.cons_ne_nil _ _

/-- A reply with the messages has room exactly for four of them, as far as it comes back. -/
theorem contexts_le_four_iff (myAscTimeLite : ℕ → CString) (node : MsgNode) :
    (listing (contextsHeader node) (some ∘ contextEntry myAscTimeLite) node.contexts).length <
        maxBriefLength ∧ UInt32.ofNat node.contexts.length ≤ 4 ↔ node.contexts.length ≤ 4 := by
  rw [UInt32.le_iff_toNat_le, UInt32.toNat_ofNat']
  constructor
  · rintro ⟨hroom, hcount⟩
    have hlength := length_le_listing (contextsHeader node) node.contexts
      (contextEntry_ne_nil myAscTimeLite)
    rw [Nat.mod_eq_of_lt (by simp only [maxBriefLength] at hroom; omega)] at hcount
    exact hcount
  · intro hfour
    refine ⟨?_, (Nat.mod_le _ _).trans hfour⟩
    have hheader := length_header_le thereAre messages unreadEnd node.numMsg node.numUnread
    have hentry : ∀ current buf, (some ∘ contextEntry myAscTimeLite) current = some buf →
        buf.length ≤ 55 := by
      rintro current buf ⟨⟩
      exact length_snprintf_le 56 _
    have hall := listing_length_le (contextsHeader node) node.contexts hentry
    have htexts : thereAre.length + messages.length + unreadEnd.length = 30 := by decide
    rw [contextsHeader] at hall ⊢
    simp only [maxBriefLength] at hall hheader ⊢
    omega

theorem briefMsgContexts_meets_iff (myAscTimeLite : ℕ → CString) (msgNode : Option MsgNode) :
    BriefMeets (contextsText myAscTimeLite msgNode)
        ((briefMsgContexts myAscTimeLite malloc msgNode).map Prod.fst) ↔
      ∃ node, msgNode = some node ∧ (malloc = false ∨ node.contexts.length ≤ 4) := by
  cases msgNode with
  | none =>
    constructor
    · rintro ⟨reply, hreply, -⟩
      cases hreply
    · rintro ⟨node, hnode, -⟩
      cases hnode
  | some node =>
    have hheader : (contextsHeader node).length < maxBriefLength := snprintf_lt _
    rw [briefMsgContexts, Option.bind_some]
    cases malloc with
    | false => exact ⟨fun _ => ⟨node, rfl, Or.inl rfl⟩, fun _ => briefMeets_null⟩
    | true =>
      have hcomes : ((briefLoop (some ∘ contextEntry myAscTimeLite) 0 node.contexts
          (contextsHeader node)).map fun rtnMsg =>
            ((some rtnMsg, { node with numUnread := 0 }) : Option (List UInt8) × MsgNode)).map
              Prod.fst =
          (briefLoop (some ∘ contextEntry myAscTimeLite) 0 node.contexts
            (contextsHeader node)).map some := by
        rw [Option.map_map]
        rfl
      rw [if_pos rfl, hcomes, briefLoop_eq 0 _ hheader, UInt32.zero_add, contextsText,
        briefMeets_ite And.left, contexts_le_four_iff]
      constructor
      · exact fun h => ⟨node, rfl, Or.inr h⟩
      · rintro ⟨node', ⟨⟩, hnull | hfour⟩
        · cases hnull
        · exact hfour

theorem briefMsgContexts_node (myAscTimeLite : ℕ → CString) (node : MsgNode) :
    (briefMsgContexts myAscTimeLite malloc (some node)).map Prod.snd =
      (ELibrary.briefMsgContexts node malloc).map Prod.snd := by
  rw [briefMsgContexts, Option.bind_some, ELibrary.briefMsgContexts]
  cases malloc with
  | false => rfl
  | true =>
    have hheader : (contextsHeader node).length < maxBriefLength := snprintf_lt _
    rw [if_pos rfl, if_pos rfl, briefLoop_eq 0 _ hheader, UInt32.zero_add, briefFrom_eq,
      Nat.zero_add]
    by_cases hfour : node.contexts.length ≤ 4
    · rw [if_pos ((contexts_le_four_iff myAscTimeLite node).mpr hfour), if_neg (by omega)]
      rfl
    · rw [if_neg (mt (contexts_le_four_iff myAscTimeLite node).mp hfour), if_pos (by omega)]
      rfl

end Replies

/-- When the replies are what they should be: the books when their text has room, the activities
when there are none, the contacts when the loop can stop behind them and their text has room, and
the messages when there is a node with four at most. -/
theorem briefs_meet_iff (myAscTimeLite : ℕ → CString) (malloc : Bool) :
    (∀ numBooks books,
      BriefMeets (booksText numBooks books) (briefBooks malloc numBooks books) ↔
        malloc = false ∨ (booksText numBooks books).length < maxBriefLength) ∧
    (∀ numActy activities,
      BriefMeets (actiesText myAscTimeLite numActy activities)
          (briefActy myAscTimeLite malloc numActy activities) ↔
        malloc = false ∨ numActy = 0 ∨ activities = []) ∧
    (∀ host,
      BriefMeets (boxText myAscTimeLite host) (briefMsgBox myAscTimeLite malloc host) ↔
        malloc = false ∨ ∀ info, host = some info → info.msgBox.numMsg ≠ 0 →
          (boxText myAscTimeLite host).length < maxBriefLength ∧
            UInt32.ofNat info.msgBox.msgs.length ≤ 4) ∧
    ∀ msgNode,
      BriefMeets (contextsText myAscTimeLite msgNode)
          ((briefMsgContexts myAscTimeLite malloc msgNode).map Prod.fst) ↔
        ∃ node, msgNode = some node ∧ (malloc = false ∨ node.contexts.length ≤ 4) :=
  ⟨briefBooks_meets_iff, briefActy_meets_iff myAscTimeLite, briefMsgBox_meets_iff myAscTimeLite,
    briefMsgContexts_meets_iff myAscTimeLite⟩

def fiveContacts : UserInfo := { UserInfo.zero with
  msgBox := ⟨5, 0, List.replicate 5 ⟨dune, 1, 0, [⟨.receiptIn, false, 0, emma⟩]⟩⟩ }

/-- Fifty books, one activity, five contacts, and a node that is NULL. -/
theorem briefs_not_meet :
    ¬ BriefMeets (booksText 50 (List.replicate 50 ⟨newBookInfo 0 dune, 0⟩))
        (briefBooks true 50 (List.replicate 50 ⟨newBookInfo 0 dune, 0⟩)) ∧
      ¬ BriefMeets (actiesText (fun _ => .empty) 1 [⟨dune, 0⟩])
        (briefActy (fun _ => .empty) true 1 [⟨dune, 0⟩]) ∧
      ¬ BriefMeets (boxText (fun _ => .empty) (some fiveContacts))
        (briefMsgBox (fun _ => .empty) true (some fiveContacts)) ∧
      ¬ BriefMeets (contextsText (fun _ => .empty) none)
        ((briefMsgContexts (fun _ => .empty) true none).map Prod.fst) := by
  refine ⟨?_, ?_, ?_, ?_⟩
  · rw [briefBooks_meets_iff]
    decide +kernel
  · rw [briefActy_meets_iff]
    decide
  · rw [briefMsgBox_meets_iff]
    rintro (hnull | h)
    · cases hnull
    · exact absurd (h fiveContacts rfl (by decide)).2 (by decide)
  · rw [briefMsgContexts_meets_iff]
    rintro ⟨node, hnode, -⟩
    cases hnode

end MorningProjects.ELibrary.Brief
