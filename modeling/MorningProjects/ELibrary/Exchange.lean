import MorningProjects.ELibrary.Messages

/-!
# The exchange of messages

`notifyExchange` copies the names and the text to fields of fixed width, and the
exchange thread finds the recipient by name. The directory holds no two users
that the search confuses, so a message arrives exactly if both names leave room
for a terminator in their fields.
-/
namespace MorningProjects.ELibrary
open Library

def maxEventLength : ℕ := 2 * maxNameLength + maxMsgLength

/-- The event of `notifyExchange`. What lies `after` the strings in memory is copied, too. -/
def systemMsg (hostName frdName msg : CString) (after : ℕ → ℕ → UInt8) : List UInt8 :=
  hostName.memcpy (after 0) maxNameLength ++
    (frdName.memcpy (after 1) maxNameLength ++ msg.memcpy (after 2) maxMsgLength)

structure ExchangeMsg where
  frdName : CString
  username : CString
  msg : CString
  deriving DecidableEq

/-- Both names have to be terminated, the text is only read over the width of its field. -/
def decodeMsg (payload : List UInt8) : Option ExchangeMsg :=
  (CString.ofBuffer (payload.take maxNameLength)).bind fun frdName =>
    (CString.ofBuffer ((payload.drop maxNameLength).take maxNameLength)).map fun username =>
      ⟨frdName, username, CString.ofField ((payload.drop (2 * maxNameLength)).take maxMsgLength)⟩

/-- The exchange thread on one event. -/
def exchangeMsg (g : Server) (payload : List UInt8) (now : ℕ) (malloc : MsgMallocs) :
    Option Server :=
  (decodeMsg payload).bind fun event =>
    (getUserInfo g event.username none).bind fun found =>
      match found with
      | none => some g
      | some host =>
        (sendReceiveMsg g host (some event.frdName) (some event.msg) .receiptIn true now malloc
          .ok).map Prod.snd

section Decode

variable {hostName frdName msg : CString} (after : ℕ → ℕ → UInt8)

theorem length_systemMsg : (systemMsg hostName frdName msg after).length = maxEventLength := by
  rw [systemMsg, List.length_append, List.length_append, CString.length_memcpy,
    CString.length_memcpy, CString.length_memcpy]
  rfl

theorem decodeMsg_eq : decodeMsg (systemMsg hostName frdName msg after) =
    (CString.ofBuffer (hostName.memcpy (after 0) maxNameLength)).bind fun sender =>
      (CString.ofBuffer (frdName.memcpy (after 1) maxNameLength)).map fun recipient =>
        ⟨sender, recipient, CString.ofField (msg.memcpy (after 2) maxMsgLength)⟩ := by
  have hhost := CString.length_memcpy hostName (after 0) maxNameLength
  have hfrd := CString.length_memcpy frdName (after 1) maxNameLength
  have hmsg := CString.length_memcpy msg (after 2) maxMsgLength
  have htwo : 2 * maxNameLength = (hostName.memcpy (after 0) maxNameLength).length +
      (frdName.memcpy (after 1) maxNameLength).length := by
    rw [hhost, hfrd, Nat.two_mul]
  rw [decodeMsg, systemMsg, List.take_left' hhost, List.drop_left' hhost, List.take_left' hfrd,
    htwo, ← List.append_assoc, List.drop_left' List.length_append, List.take_of_length_le hmsg.le]

/-- What `notifyExchange` puts into an event is what the exchange thread reads. -/
theorem decodeMsg_systemMsg (hhost : hostName.strlen < maxNameLength)
    (hfrd : frdName.strlen < maxNameLength) (hmsg : msg.strlen ≤ maxMsgLength) :
    decodeMsg (systemMsg hostName frdName msg after) = some ⟨hostName, frdName, msg⟩ := by
  rw [decodeMsg_eq, CString.ofBuffer_memcpy hhost, CString.ofBuffer_memcpy hfrd,
    CString.ofField_memcpy hmsg]
  rfl

theorem decodeMsg_eq_none
    (h : maxNameLength ≤ hostName.strlen ∨ maxNameLength ≤ frdName.strlen) :
    decodeMsg (systemMsg hostName frdName msg after) = none := by
  rw [decodeMsg_eq]
  rcases h with h | h
  · rw [CString.ofBuffer_memcpy_of_le h]
    rfl
  · rw [CString.ofBuffer_memcpy_of_le h]
    cases CString.ofBuffer (hostName.memcpy (after 0) maxNameLength) <;> rfl

end Decode

/-! ### What is stored -/

def MsgBox.entries (box : MsgBox) : List (CString × MsgFormat) :=
  box.msgs.flatMap fun node => node.contexts.map fun context => (node.contact, context)

theorem entries_push {box : MsgBox} {frdName : CString} {node : MsgNode}
    (hnode : getMsgNode box frdName = some node) (context : MsgFormat) :
    (box.push frdName context).entries.Perm ((frdName, context) :: box.entries) := by
  obtain ⟨rfl, xs, ys, hsplit, hwrite⟩ := getMsgNode_split hnode
  rw [MsgBox.entries, MsgBox.entries, MsgBox.push, hwrite, hsplit]
  simp only [List.flatMap_append, List.flatMap_cons, MsgNode.push, List.map_cons, List.cons_append]
  exact List.perm_middle

/-- With memory, a contact whose name fits gets exactly one message more. -/
theorem storeMsg_entries (box : MsgBox) {frdName : CString} (h : frdName.strlen ≤ maxNameLength)
    (context : MsgFormat) :
    ∃ box', storeMsg box frdName context ⟨true, true⟩ = some (.ok, box') ∧
      box'.entries.Perm ((frdName, context) :: box.entries) := by
  cases hnode : getMsgNode box frdName with
  | some node =>
    refine ⟨box.push frdName context, ?_, entries_push hnode context⟩
    rw [storeMsg, if_pos rfl, hnode]
  | none =>
    refine ⟨(box.addNode frdName).push frdName context, ?_, ?_⟩
    · rw [storeMsg, if_pos rfl, hnode]
      dsimp only
      rw [if_pos rfl, if_neg (by omega)]
    · exact entries_push (getMsgNode_addNode box frdName) context

theorem newMsg_eq {msg : CString} (h : msg.strlen ≤ maxMsgLength) (direction : MsgDirection)
    (now : ℕ) : newMsg msg direction now = ⟨direction, direction = .receiptIn, now, msg⟩ := by
  rw [newMsg, CString.strncpy_of_le h]

theorem sendReceiveMsg_entries (g : Server) (host : ℕ) {frdName msg : CString}
    (hfrd : frdName.strlen ≤ maxNameLength) (hmsg : msg.strlen ≤ maxMsgLength)
    (direction : MsgDirection) (now : ℕ) :
    ∃ box, sendReceiveMsg g host (some frdName) (some msg) direction true now ⟨true, true⟩ .ok =
        some (.ok, g.setBox host box) ∧
      box.entries.Perm ((frdName, ⟨direction, direction = .receiptIn, now, msg⟩) ::
        (g.user host).msgBox.entries) := by
  obtain ⟨box, hstore, hperm⟩ := storeMsg_entries (g.user host).msgBox hfrd
    ⟨direction, direction = .receiptIn, now, msg⟩
  refine ⟨box, ?_, hperm⟩
  rw [sendReceiveMsg, if_neg Bool.true_eq_false.mp, newMsg_eq hmsg, hstore, Option.map_some]
  dsimp only
  rw [ite_self]

/-! ### The directory -/

structure SameDirectory (g g' : Server) : Prop where
  userList : g'.userList = g.userList
  username : ∀ u, (g'.user u).username = (g.user u).username

theorem SameDirectory.refl (g : Server) : SameDirectory g g := ⟨rfl, fun _ => rfl⟩

theorem sameDirectory_setBox (g : Server) (host : ℕ) (box : MsgBox) :
    SameDirectory g (g.setBox host box) := ⟨rfl, setBox_username g host box⟩

/-- No earlier name starts with a later one, unless that one fills its field. -/
structure Server.Directory (g : Server) : Prop where
  nodup : g.userList.Nodup
  names : g.userList.Pairwise fun u v => (g.user v).username.strlen < maxNameLength →
    ¬ (g.user u).username.StartsWith (g.user v).username

theorem directory_init : Server.init.Directory := ⟨List.nodup_nil, List.Pairwise.nil⟩

theorem Server.Directory.same {g g' : Server} (h : g.Directory) (hsame : SameDirectory g g') :
    g'.Directory := by
  constructor
  · rw [hsame.userList]
    exact h.nodup
  · rw [hsame.userList]
    apply h.names.imp
    intro u v huv
    rwa [hsame.username, hsame.username]

/-- A search for a user and an email that ends without one has passed no such name. -/
theorem getUserInfoFrom_none {g : Server} {username : CString} {email : Option CString}
    {us : List ℕ} (h : getUserInfoFrom g username email us = some none) :
    ∀ u ∈ us, ¬ (g.user u).username.StartsWith username := by
  induction us with
  | nil =>
    intro u hu
    cases hu
  | cons v us ih =>
    rw [getUserInfoFrom.eq_def] at h
    dsimp only at h
    by_cases hv : (g.user v).username.StartsWith username
    · rw [if_pos (CString.strncmp_strlen.mpr hv)] at h
      cases email with
      | none => cases h
      | some e =>
        dsimp only at h
        split_ifs at h
        cases h
    · rw [if_neg (fun heq => hv (CString.strncmp_strlen.mp heq))] at h
      intro u hu
      rcases List.mem_cons.mp hu with rfl | hu
      · exact hv
      · exact ih h u hu

def Server.PermitsMsg (g : Server) : MsgOp → Prop
  | .addUser _ _ malloc => ∀ u, malloc.newUser = some u → u ∉ g.userList
  | _ => True

theorem Server.Directory.addUser {layout : UserLayout} {g g' : Server} (h : g.Directory)
    {userName email : CString} {malloc : UserMallocs}
    (hpermit : g.PermitsMsg (.addUser userName email malloc))
    (hg : msgStep layout g (.addUser userName email malloc) = some g') :
    g'.Directory := by
  obtain ⟨⟨status, g'⟩, hadd, rfl⟩ := Option.map_eq_some_iff.mp hg
  change g'.Directory
  rcases addUser_cases hadd with rfl | ⟨u, hu, hsearch, hlist, huser⟩
  · exact h
  · have hfresh := hpermit u hu
    have hsame : ∀ v ∈ g.userList, (g'.user v).username = (g.user v).username := by
      intro v hv
      rw [huser, Function.update_of_ne]
      rintro rfl
      exact hfresh hv
    have hold : g.userList.Pairwise fun u v => (g'.user v).username.strlen < maxNameLength →
        ¬ (g'.user u).username.StartsWith (g'.user v).username := by
      apply h.names.imp_of_mem
      intro v w hv hw hvw
      rwa [hsame v hv, hsame w hw]
    rcases hlist with hlist | hlist
    · exact ⟨by rw [hlist]; exact h.nodup, by rw [hlist]; exact hold⟩
    · constructor
      · rw [hlist, List.nodup_append]
        refine ⟨h.nodup, List.nodup_singleton u, ?_⟩
        rintro v hv w hw rfl
        exact hfresh (List.mem_singleton.mp hw ▸ hv)
      · rw [hlist, List.pairwise_append]
        refine ⟨hold, List.pairwise_singleton _ u, ?_⟩
        intro v hv w hw hshort
        have hwu : w = u := List.mem_singleton.mp hw
        have hname : (g'.user w).username = userName.strncpy maxNameLength := by
          rw [hwu, huser, Function.update_self, newUserInfo_username]
        -- a stored name that leaves room was stored in full
        have hfull : userName.strncpy maxNameLength = userName := by
          apply CString.strncpy_of_le
          rw [hname, CString.strlen, CString.bytes_strncpy, List.length_take] at hshort
          rw [CString.strlen]
          omega
        rw [hname, hfull, hsame v hv]
        exact getUserInfoFrom_none hsearch v hv

theorem sameDirectory_sendReceiveMsg {g g' : Server} {host : ℕ} {frdName msg : Option CString}
    {direction : MsgDirection} {ready : Bool} {now : ℕ} {malloc : MsgMallocs}
    {notified status : SystemStatus}
    (h : sendReceiveMsg g host frdName msg direction ready now malloc notified =
      some (status, g')) : SameDirectory g g' := by
  cases frdName with
  | none =>
    cases h
    exact SameDirectory.refl g
  | some frdName =>
    cases msg with
    | none =>
      cases h
      exact SameDirectory.refl g
    | some msg =>
      cases ready with
      | false =>
        cases h
        exact SameDirectory.refl g
      | true =>
        obtain ⟨⟨stored, box⟩, -, hg⟩ := Option.map_eq_some_iff.mp h
        cases hg
        exact sameDirectory_setBox g host box

theorem sameDirectory_inputMsg {g g' : Server} {userName : CString} {params : List CString}
    {malloc : Bool} {reply : MsgReply}
    (h : inputMsg g userName params malloc = some (reply, g')) : SameDirectory g g' := by
  obtain ⟨found, -, h⟩ := Option.bind_eq_some_iff.mp h
  cases found with
  | none =>
    cases h
    exact SameDirectory.refl g
  | some host =>
    cases params with
    | nil =>
      cases h
      exact SameDirectory.refl g
    | cons frdName rest =>
      obtain ⟨node, -, h⟩ := Option.bind_eq_some_iff.mp h
      obtain ⟨⟨brief, node'⟩, -, h⟩ := Option.map_eq_some_iff.mp h
      cases h
      exact sameDirectory_setBox g host _

theorem Server.Directory.step {layout : UserLayout} {g g' : Server} {op : MsgOp}
    (h : g.Directory) (hpermit : g.PermitsMsg op) (hg : msgStep layout g op = some g') :
    g'.Directory := by
  cases op with
  | addUser userName email malloc => exact h.addUser hpermit hg
  | sendReceiveMsg host frdName msg direction ready now malloc notified =>
    obtain ⟨⟨status, g'⟩, hsend, rfl⟩ := Option.map_eq_some_iff.mp hg
    exact h.same (sameDirectory_sendReceiveMsg hsend)
  | inputMsg userName params malloc =>
    obtain ⟨⟨reply, g'⟩, hinput, rfl⟩ := Option.map_eq_some_iff.mp hg
    exact h.same (sameDirectory_inputMsg hinput)

/-- A user with a name that leaves room is found by this name. -/
theorem Server.Directory.getUserInfo_username {g : Server} (h : g.Directory) {u : ℕ}
    (hu : u ∈ g.userList) (hshort : (g.user u).username.strlen < maxNameLength) :
    getUserInfo g (g.user u).username none = some (some u) := by
  obtain ⟨xs, ys, hsplit⟩ := List.append_of_mem hu
  have hnames := h.names
  rw [hsplit, List.pairwise_append] at hnames
  have hfind : (g.userList.find? fun v =>
      (g.user v).username.StartsWith (g.user u).username) = some u := by
    rw [List.find?_eq_some_iff_append]
    refine ⟨by simpa using (g.user u).username.startsWith_self, xs, ys, hsplit, ?_⟩
    intro v hv
    simpa using hnames.2.2 v hv u List.mem_cons_self hshort
  rw [getUserInfo_eq, hfind]

/-! ### A message between two users -/

/-- The messages that a message from `A` to `B` leaves in the box of a user. -/
def Server.exchanged (g : Server) (A B : ℕ) (text : CString) (sent received : ℕ) (u : ℕ) :
    List (CString × MsgFormat) :=
  (if u = B then [((g.user A).username, ⟨.receiptIn, true, received, text⟩)] else []) ++
    if u = A then [((g.user B).username, ⟨.receiptOut, false, sent, text⟩)] else []

/-- `A` sends a text to `B`, the exchange thread processes the event, and the text is
stored once in either box and nowhere else. -/
def Server.Exchanges (g : Server) (A B : ℕ) (text : CString) (after : ℕ → ℕ → UInt8)
    (sent received : ℕ) : Prop :=
  ∃ g₁ g₂, sendReceiveMsg g A (some (g.user B).username) (some text) .receiptOut true sent
        ⟨true, true⟩ .ok = some (.ok, g₁) ∧
      exchangeMsg g₁ (systemMsg (g.user A).username (g.user B).username text after) received
        ⟨true, true⟩ = some g₂ ∧
      (∀ u, (g₂.user u).msgBox.entries.Perm
        (g.exchanged A B text sent received u ++ (g.user u).msgBox.entries)) ∧
      ∀ u, u ≠ A → u ≠ B → (g₂.user u).msgBox = (g.user u).msgBox

theorem Server.Directory.exchanges {g : Server} (h : g.Directory) {A B : ℕ}
    (hB : B ∈ g.userList) (hshortA : (g.user A).username.strlen < maxNameLength)
    (hshortB : (g.user B).username.strlen < maxNameLength) {text : CString}
    (htext : text.strlen ≤ maxMsgLength) (after : ℕ → ℕ → UInt8) (sent received : ℕ) :
    g.Exchanges A B text after sent received := by
  obtain ⟨boxA, hsend, hpermA⟩ := sendReceiveMsg_entries g A hshortB.le htext .receiptOut sent
  have hsame := sameDirectory_setBox g A boxA
  have hfound : getUserInfo (g.setBox A boxA) (g.user B).username none = some (some B) := by
    rw [← hsame.username B]
    apply (h.same hsame).getUserInfo_username
    · rw [hsame.userList]
      exact hB
    · rwa [hsame.username]
  obtain ⟨boxB, hreceive, hpermB⟩ :=
    sendReceiveMsg_entries (g.setBox A boxA) B hshortA.le htext .receiptIn received
  refine ⟨g.setBox A boxA, (g.setBox A boxA).setBox B boxB, hsend, ?_, ?_, ?_⟩
  · rw [exchangeMsg, decodeMsg_systemMsg after hshortA hshortB htext, Option.bind_some, hfound,
      Option.bind_some]
    dsimp only
    rw [hreceive]
    rfl
  · -- the box of `A` gets the sent message first, that of `B` the received one last
    have hsent : ∀ u, ((g.setBox A boxA).user u).msgBox.entries.Perm
        ((if u = A then [((g.user B).username, ⟨.receiptOut, false, sent, text⟩)] else []) ++
          (g.user u).msgBox.entries) := by
      intro u
      by_cases huA : u = A
      · rw [huA, setBox_msgBox_self, if_pos rfl]
        exact hpermA
      · rw [setBox_user_of_ne g huA, if_neg huA]
        rfl
    intro u
    rw [Server.exchanged, List.append_assoc]
    by_cases huB : u = B
    · rw [huB, setBox_msgBox_self, if_pos rfl]
      exact hpermB.trans ((hsent B).cons _)
    · rw [setBox_user_of_ne _ huB, if_neg huB]
      exact hsent u
  · intro u huA huB
    rw [setBox_user_of_ne _ huB, setBox_user_of_ne g huA]

/-- In every state reached by calls of `addUser`, by messages and by reads, a message
between registered users arrives exactly if both names leave room for a terminator. -/
theorem exchanges_iff (layout : UserLayout) (ops : List MsgOp)
    (hops : Along (msgStep layout) Server.PermitsMsg Server.init ops) (g : Server)
    (hg : runFrom (msgStep layout) Server.init ops = some g) (A B : ℕ)
    (hB : B ∈ g.userList) (text : CString)
    (htext : text.strlen ≤ maxMsgLength) (after : ℕ → ℕ → UInt8) (sent received : ℕ) :
    g.Exchanges A B text after sent received ↔
      (g.user A).username.strlen < maxNameLength ∧
        (g.user B).username.strlen < maxNameLength := by
  have hdirectory : g.Directory := by
    apply runFrom_invariant _ directory_init hops hg
    intro s op s' h hpermit hs
    exact h.step hpermit hs
  constructor
  · rintro ⟨g₁, g₂, -, hexchange, -⟩
    by_contra hlong
    have hnone : decodeMsg (systemMsg (g.user A).username (g.user B).username text after) =
        none := by
      apply decodeMsg_eq_none
      by_contra hshort
      apply hlong
      constructor <;> omega
    rw [exchangeMsg, hnone] at hexchange
    cases hexchange
  · rintro ⟨hshortA, hshortB⟩
    exact hdirectory.exchanges hB hshortA hshortB htext after sent received

theorem exchanges_iff_example :
    ∃ g, runFrom (msgStep smallLayout) Server.init
        [.addUser anna anna ⟨some 0, true, true⟩, .addUser ben ben ⟨some 1, true, true⟩] = some g ∧
      g.Exchanges 0 1 hello (fun _ _ => 0) 0 0 := by
  have hops : Along (msgStep smallLayout) Server.PermitsMsg Server.init
      [.addUser anna anna ⟨some 0, true, true⟩, .addUser ben ben ⟨some 1, true, true⟩] := by
    constructor
    · exact fun _ _ => List.not_mem_nil
    rintro _ ⟨⟩
    constructor
    · have hfresh : 1 ∉ [0] := by decide
      rintro u ⟨⟩
      exact hfresh
    · intro g _
      trivial
  have hmem : 1 ∈ [0, 1] := by decide
  have htext : hello.strlen ≤ maxMsgLength := by decide
  have hanna : anna.strlen < maxNameLength := by decide
  have hben : ben.strlen < maxNameLength := by decide
  exact ⟨_, rfl,
    (exchanges_iff smallLayout _ hops _ rfl 0 1 hmem hello htext (fun _ _ => 0) 0 0).mpr
      ⟨hanna, hben⟩⟩

def alexandria : CString := ⟨[65, 108, 101, 120, 97, 110, 100, 114, 105, 97], by decide⟩

/-- A message to a name of `MAX_NAME_LENGTH` characters is stored and sent, but the name is not
terminated in the event. -/
theorem not_exchanges :
    ∃ g, runFrom (msgStep smallLayout) Server.init
        [.addUser anna anna ⟨some 0, true, true⟩,
          .addUser alexandria alexandria ⟨some 1, true, true⟩] = some g ∧
      (g.user 1).username = alexandria ∧
      (∃ g₁, sendReceiveMsg g 0 (some alexandria) (some hello) .receiptOut true 0 ⟨true, true⟩ .ok =
        some (.ok, g₁)) ∧
      decodeMsg (systemMsg (g.user 0).username alexandria hello fun _ _ => 0) = none ∧
      ¬ g.Exchanges 0 1 hello (fun _ _ => 0) 0 0 := by
  refine ⟨_, rfl, rfl, ⟨_, rfl⟩, rfl, ?_⟩
  rintro ⟨g₁, g₂, -, hexchange, -⟩
  cases hexchange

end MorningProjects.ELibrary
