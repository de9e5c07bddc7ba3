import MorningProjects.ELibrary.Mailbox

/-!
# From box to box

A message goes into the box of its sender, through the slot, and into the box of the user
found by the recipient's name. Sessions of different users send and read while the exchange thread
delivers. The source takes no lock for a box, and two stores at the same time may lose a message;
the runs here are those in which one access to a box is done before the next begins.
Whatever their order, every message accepted is delivered once, in the order of acceptance, and
at most one is on its way.
-/
namespace MorningProjects.ELibrary
open Library

/-! ### The texts of a contact -/

def MsgBox.texts (box : MsgBox) (direction : MsgDirection) (contact : CString) : List CString :=
  (getMsgNode box contact).elim [] fun node =>
    ((node.contexts.filter fun context => context.io = direction).map MsgFormat.msg).reverse

section Texts

variable {box box' : MsgBox} {frdName contact : CString} {direction : MsgDirection}

theorem getMsgNode_update_of_ne (h : contact ≠ frdName) {write : MsgNode → MsgNode}
    (hwrite : ∀ node, (write node).contact = node.contact) (nodes : List MsgNode) :
    (updateMsgNode frdName write nodes).find? (fun node => contact.strcmp node.contact = 0) =
      nodes.find? fun node => contact.strcmp node.contact = 0 := by
  induction nodes with
  | nil => rfl
  | cons node nodes ih =>
    rw [updateMsgNode]
    split_ifs with hnode
    · have hname : frdName = node.contact := by simpa using hnode
      have hne : contact ≠ node.contact := hname ▸ h
      simp [hwrite, hne]
    · rw [List.find?_cons, List.find?_cons, ih]

theorem getMsgNode_update_self (frdName : CString) {write : MsgNode → MsgNode}
    (hwrite : ∀ node, (write node).contact = node.contact) (nodes : List MsgNode) :
    (updateMsgNode frdName write nodes).find? (fun node => frdName.strcmp node.contact = 0) =
      (nodes.find? fun node => frdName.strcmp node.contact = 0).map write := by
  induction nodes with
  | nil => rfl
  | cons node nodes ih =>
    rw [updateMsgNode]
    split_ifs with hnode
    · have hname : frdName = node.contact := by simpa using hnode
      simp [hwrite, hname]
    · rw [List.find?_cons, List.find?_cons, ih]
      simp [hnode]

theorem texts_push {node : MsgNode} (hnode : getMsgNode box frdName = some node)
    (context : MsgFormat) :
    (box.push frdName context).texts direction contact = box.texts direction contact ++
      if contact = frdName ∧ context.io = direction then [context.msg] else [] := by
  have hpush : ∀ node : MsgNode, (node.push context).contact = node.contact := fun _ => rfl
  by_cases hcontact : contact = frdName
  · subst hcontact
    have hself := getMsgNode_update_self contact hpush box.msgs
    rw [← getMsgNode, hnode] at hself
    rw [MsgBox.texts, MsgBox.texts, hnode, getMsgNode, MsgBox.push, hself]
    by_cases hio : context.io = direction
    · simp [MsgNode.push, hio]
    · simp [MsgNode.push, hio]
  · have hne := getMsgNode_update_of_ne hcontact hpush box.msgs
    rw [MsgBox.texts, MsgBox.texts, getMsgNode, MsgBox.push, hne]
    simp [hcontact, getMsgNode]

theorem texts_addNode (hnode : getMsgNode box frdName = none) :
    (box.addNode frdName).texts direction contact = box.texts direction contact := by
  by_cases hcontact : contact = frdName
  · subst hcontact
    rw [MsgBox.texts, MsgBox.texts, getMsgNode_addNode, hnode]
    rfl
  · have hsame : getMsgNode (box.addNode frdName) contact = getMsgNode box contact := by
      simp [getMsgNode, MsgBox.addNode, hcontact]
    rw [MsgBox.texts, MsgBox.texts, hsame]

/-- What a call stores, if it stores anything. -/
theorem texts_storeMsg {context : MsgFormat} {malloc : MsgMallocs} {status : SystemStatus}
    (h : storeMsg box frdName context malloc = some (status, box')) :
    box'.texts direction contact = box.texts direction contact ++
      if status = .ok ∧ contact = frdName ∧ context.io = direction then [context.msg] else [] := by
  rw [storeMsg] at h
  by_cases hcontext : malloc.newContext
  · rw [if_pos hcontext] at h
    cases hnode : getMsgNode box frdName with
    | some node =>
      rw [hnode] at h
      cases h
      simpa using texts_push hnode context
    | none =>
      rw [hnode] at h
      dsimp only at h
      by_cases hmalloc : malloc.msgNode
      · rw [if_pos hmalloc] at h
        split_ifs at h
        cases h
        rw [texts_push (getMsgNode_addNode box frdName), texts_addNode hnode]
        simp
      · rw [if_neg hmalloc] at h
        cases h
        simp
  · rw [if_neg hcontext] at h
    cases h
    simp

theorem texts_rewrite {xs ys : List MsgNode} {node node' : MsgNode}
    (hbox : box.msgs = xs ++ node :: ys) (hbox' : box'.msgs = xs ++ node' :: ys)
    (hcontact : node'.contact = node.contact) (hcontexts : node'.contexts = node.contexts)
    (d : MsgDirection) (c : CString) : box'.texts d c = box.texts d c := by
  simp only [MsgBox.texts, getMsgNode, hbox, hbox', List.find?_append, List.find?_cons, hcontact]
  cases xs.find? fun node => c.strcmp node.contact = 0 with
  | some x => rfl
  | none =>
    cases decide (c.strcmp node.contact = 0) with
    | true => simp [hcontexts]
    | false => rfl

end Texts

def Server.texts (g : Server) (u : ℕ) (direction : MsgDirection) (contact : CString) :
    List CString :=
  (g.user u).msgBox.texts direction contact

section Calls

variable {g g' : Server} {host : ℕ} {frdName msg : CString} {direction : MsgDirection}
  {ready : Bool} {now : ℕ} {malloc : MsgMallocs} {status : SystemStatus}

theorem texts_setBox (g : Server) (host : ℕ) (box : MsgBox) (u : ℕ) (d : MsgDirection)
    (c : CString) :
    (g.setBox host box).texts u d c = if u = host then box.texts d c else g.texts u d c := by
  by_cases hu : u = host
  · rw [if_pos hu, hu, Server.texts, setBox_msgBox_self]
  · rw [if_neg hu, Server.texts, setBox_user_of_ne g hu, Server.texts]

/-- A call adds at most one text, to the box of its host. -/
theorem texts_sendReceiveMsg
    (h : sendReceiveMsg g host (some frdName) (some msg) direction ready now malloc .ok =
      some (status, g')) (u : ℕ) (d : MsgDirection) (c : CString) :
    g'.texts u d c = g.texts u d c ++
      if u = host ∧ status = .ok ∧ c = frdName ∧ direction = d then [msg.strncpy maxMsgLength]
      else [] := by
  cases ready with
  | false =>
    cases h
    simp
  | true =>
    obtain ⟨⟨stored, box⟩, hstore, hg⟩ := Option.map_eq_some_iff.mp h
    have hstatus : status = stored := by
      cases hg
      exact ite_eq_right_iff.mpr fun hok => hok.1.symm
    obtain rfl : g' = g.setBox host box := by
      cases hg
      rfl
    rw [texts_setBox]
    by_cases hu : u = host
    · subst hu
      rw [if_pos rfl, texts_storeMsg hstore, hstatus]
      simp only [Server.texts, newMsg, true_and]
      rfl
    · simp [hu]

/-- With memory a call that comes back has stored its message. -/
theorem sendReceiveMsg_ok
    (h : sendReceiveMsg g host (some frdName) (some msg) direction true now ⟨true, true⟩ .ok =
      some (status, g')) : status = .ok := by
  obtain ⟨⟨stored, box⟩, hstore, hg⟩ := Option.map_eq_some_iff.mp h
  have hstored : stored = .ok := by
    rw [storeMsg, if_pos rfl] at hstore
    cases hnode : getMsgNode (g.user host).msgBox frdName with
    | some node =>
      rw [hnode] at hstore
      cases hstore
      rfl
    | none =>
      rw [hnode] at hstore
      dsimp only at hstore
      rw [if_pos rfl] at hstore
      split_ifs at hstore
      cases hstore
      rfl
  cases hg
  rw [hstored, ite_self]

theorem texts_inputMsg {userName : CString} {params : List CString} {malloc : Bool}
    {reply : MsgReply} (h : inputMsg g userName params malloc = some (reply, g')) (u : ℕ)
    (d : MsgDirection) (c : CString) : g'.texts u d c = g.texts u d c := by
  obtain ⟨found, -, h⟩ := Option.bind_eq_some_iff.mp h
  cases found with
  | none =>
    cases h
    rfl
  | some host =>
    cases params with
    | nil =>
      cases h
      rfl
    | cons frdName rest =>
      obtain ⟨node, hnode, h⟩ := Option.bind_eq_some_iff.mp h
      obtain ⟨⟨brief, node'⟩, hbrief, h⟩ := Option.map_eq_some_iff.mp h
      cases h
      obtain ⟨rfl, xs, ys, hsplit, hwrite⟩ := getMsgNode_split hnode
      have hread : node'.contact = node.contact ∧ node'.contexts = node.contexts := by
        rw [briefMsgContexts] at hbrief
        split_ifs at hbrief
        · obtain ⟨k, -, hk⟩ := Option.map_eq_some_iff.mp hbrief
          cases hk
          exact ⟨rfl, rfl⟩
        · cases hbrief
          exact ⟨rfl, rfl⟩
      rw [texts_setBox]
      split_ifs with hu
      · subst hu
        exact texts_rewrite hsplit (hwrite _) hread.1 hread.2 d c
      · rfl

end Calls

/-! ### The system -/

def ExchangePc.ready : ExchangePc → Bool
  | .starting => false
  | .wantLock | .testing | .waiting | .handling _ | .ended => true

/-- The server and the slot, with a thread for every session. -/
structure MsgSystem (ι : Type*) where
  server : Server
  mailbox : Mailbox ι

/-- A session begins a `msg -s` or does a `msg -f`, the exchange thread handles a payload and
clears the slot, or somebody takes another step on the slot. -/
inductive MsgSystemAction (ι : Type*) where
  | send (i : ι) (frdName msg : CString) (now : ℕ) (malloc : MsgMallocs) (after : ℕ → ℕ → UInt8)
  | read (i : ι) (params : List CString) (malloc : Bool)
  | deliver (now : ℕ) (malloc : MsgMallocs)
  | move (action : MailboxAction ι)

def MailboxAction.onSlot {ι : Type*} : MailboxAction ι → Bool
  | .notify _ _ | .exchangeClear => false
  | .lock _ | .test _ | .setEvent _ | .copy _ | .signal _ | .unlock _ | .retry _ => true
  | .exchangeStart | .exchangeLock | .exchangeTest | .exchangeWake => true

variable {ι : Type*}

/-- The call that a thread has not put into the slot yet. -/
def SenderPc.pending : SenderPc → Option NotifyCall
  | .idle | .copied | .signalled => none
  | .wantLock call | .locked call | .freeSlot call | .eventSet call => some call
  | .busy call | .sleeping call => some call

variable [DecidableEq ι] (session : ι → CString)

/-- `sendReceiveMsg` for a session that is between two commands, up to the loop of
`notifyExchange`. -/
def beginSend (s : MsgSystem ι) (i : ι) (frdName msg : CString) (now : ℕ) (malloc : MsgMallocs)
    (after : ℕ → ℕ → UInt8) : Option (MsgSystem ι) :=
  (getUserInfo s.server (session i) none).bind fun found =>
    match found with
    | none => some s
    | some host =>
      (sendReceiveMsg s.server host (some frdName) (some msg) .receiptOut s.mailbox.exchange.ready
        now malloc .ok).bind fun (status, g) =>
          if status = .ok then
            let call := ⟨(s.server.user host).username, frdName, msg, after⟩
            (mailboxStep s.mailbox (.notify i call)).map fun m => ⟨g, m⟩
          else some ⟨g, s.mailbox⟩

/-- A command up to the loop of `notifyExchange`, a delivery, or a step on the slot. Accesses to
boxes do not overlap: nothing in the source makes one a single step. -/
def msgSystemStep (s : MsgSystem ι) : MsgSystemAction ι → Option (MsgSystem ι)
  | .send i frdName msg now malloc after =>
    match s.mailbox.sender i with
    | .idle => beginSend session s i frdName msg now malloc after
    | _ => none
  | .read i params malloc =>
    match s.mailbox.sender i with
    | .idle => (inputMsg s.server (session i) params malloc).map fun (_, g) => ⟨g, s.mailbox⟩
    | _ => none
  | .deliver now malloc =>
    match s.mailbox.exchange with
    | .handling payload =>
      (exchangeMsg s.server payload now malloc).bind fun g =>
        (mailboxStep s.mailbox .exchangeClear).map fun m => ⟨g, m⟩
    | _ => none
  | .move action =>
    if action.onSlot then (mailboxStep s.mailbox action).map fun m => ⟨s.server, m⟩ else none

/-- The recipient's name leaves room for its terminator, and there is memory for what is
delivered. -/
def MsgSystemAction.Permitted : MsgSystemAction ι → Prop
  | .send _ frdName _ _ _ _ => frdName.strlen < maxNameLength
  | .deliver _ malloc => malloc = ⟨true, true⟩
  | .read _ _ _ | .move _ => True

/-! ### What a payload delivers -/

def NotifyCall.text (call : NotifyCall) : CString := call.msg.strncpy maxMsgLength

def NotifyCall.IsFrom (call : NotifyCall) (hostName : CString) (frdName : CString) : Prop :=
  call.hostName = hostName ∧ call.frdName = frdName

instance (call : NotifyCall) (hostName frdName : CString) :
    Decidable (call.IsFrom hostName frdName) :=
  inferInstanceAs (Decidable (_ ∧ _))

def NotifyCall.IsTo (g : Server) (call : NotifyCall) (u : ℕ) (hostName : CString) : Prop :=
  getUserInfo g call.frdName none = some (some u) ∧ call.hostName = hostName

instance (g : Server) (call : NotifyCall) (u : ℕ) (hostName : CString) :
    Decidable (call.IsTo g u hostName) :=
  inferInstanceAs (Decidable (_ ∧ _))

def deliveredTo (g : Server) (u : ℕ) (contact : CString) (payload : List UInt8) : List CString :=
  (decodeMsg payload).elim [] fun event =>
    if getUserInfo g event.username none = some (some u) ∧ event.frdName = contact then
      [event.msg.strncpy maxMsgLength]
    else []

/-- Both names leave room for their terminators. -/
def NotifyCall.NamesFit (call : NotifyCall) : Prop :=
  call.hostName.strlen < maxNameLength ∧ call.frdName.strlen < maxNameLength

theorem deliveredTo_systemMsg {call : NotifyCall} (h : call.NamesFit) (g : Server) (u : ℕ)
    (contact : CString) :
    deliveredTo g u contact call.systemMsg = if call.IsTo g u contact then [call.text] else [] := by
  have hdecode : decodeMsg call.systemMsg =
      some ⟨call.hostName, call.frdName, call.msg.strncpy maxMsgLength⟩ := by
    rw [NotifyCall.systemMsg, decodeMsg_eq, CString.ofBuffer_memcpy h.1,
      CString.ofBuffer_memcpy h.2, CString.ofField_memcpy_eq]
    rfl
  have htwice : (call.msg.strncpy maxMsgLength).strncpy maxMsgLength = call.text := by
    apply CString.strncpy_of_le
    rw [CString.strlen_strncpy]
    exact Nat.min_le_left _ _
  rw [deliveredTo, hdecode, Option.elim_some, htwice]
  rfl

theorem flatMap_deliveredTo {calls : List NotifyCall} (h : ∀ call ∈ calls, call.NamesFit)
    (g : Server) (u : ℕ) (contact : CString) :
    (calls.map NotifyCall.systemMsg).flatMap (deliveredTo g u contact) =
      (calls.filter fun call => call.IsTo g u contact).map NotifyCall.text := by
  induction calls with
  | nil => rfl
  | cons call calls ih =>
    rw [List.map_cons, List.flatMap_cons, deliveredTo_systemMsg (h call List.mem_cons_self),
      ih fun c hc => h c (List.mem_cons_of_mem call hc), List.filter_cons]
    by_cases hto : call.IsTo g u contact
    · simp [hto]
    · simp [hto]

theorem SameDirectory.getUserInfo {g g' : Server} (h : SameDirectory g g') (username : CString) :
    getUserInfo g' username none = getUserInfo g username none := by
  rw [getUserInfo_eq, getUserInfo_eq, h.userList]
  simp only [h.username]

theorem SameDirectory.trans {g g' g'' : Server} (h : SameDirectory g g')
    (h' : SameDirectory g' g'') : SameDirectory g g'' :=
  ⟨h'.userList.trans h.userList, fun u => (h'.username u).trans (h.username u)⟩

theorem texts_exchangeMsg {g g' : Server} {payload : List UInt8} {now : ℕ}
    (h : exchangeMsg g payload now ⟨true, true⟩ = some g') :
    SameDirectory g g' ∧ ∀ u d c, g'.texts u d c =
      g.texts u d c ++ if d = .receiptIn then deliveredTo g u c payload else [] := by
  obtain ⟨event, hevent, h⟩ := Option.bind_eq_some_iff.mp h
  obtain ⟨found, hfound, h⟩ := Option.bind_eq_some_iff.mp h
  cases found with
  | none =>
    cases h
    refine ⟨SameDirectory.refl g, ?_⟩
    intro u d c
    simp [deliveredTo, hevent, hfound]
  | some host =>
    obtain ⟨⟨status, g'⟩, hsend, rfl⟩ := Option.map_eq_some_iff.mp h
    refine ⟨sameDirectory_sendReceiveMsg hsend, ?_⟩
    intro u d c
    rw [texts_sendReceiveMsg hsend, sendReceiveMsg_ok hsend, deliveredTo, hevent,
      Option.elim_some, hfound]
    by_cases hd : d = .receiptIn
    · subst hd
      simp [eq_comm]
    · simp [hd, Ne.symm hd]

/-! ### The slot -/

section Slot

variable {m m' : Mailbox ι}

theorem pending_setSender (m : Mailbox ι) (i : ι) (pc : SenderPc) (j : ι) :
    ((m.setSender i pc).sender j).pending = if j = i then pc.pending else (m.sender j).pending := by
  rw [setSender_sender]
  split_ifs <;> rfl

theorem pending_setSender_of_eq {i : ι} {pc : SenderPc} (h : pc.pending = (m.sender i).pending)
    (j : ι) : ((m.setSender i pc).sender j).pending = (m.sender j).pending := by
  rw [pending_setSender]
  split_ifs with hj
  · rw [h, hj]
  · rfl

/-- A step on the slot processes nothing; it accepts the call that a thread has pending, or leaves
what is accepted and pending as it is. -/
theorem mailboxStep_onSlot {action : MailboxAction ι} (honSlot : action.onSlot = true)
    (hs : mailboxStep m action = some m') : m'.processed = m.processed ∧
      ((m'.accepted = m.accepted ∧ ∀ j, (m'.sender j).pending = (m.sender j).pending) ∨
        ∃ i call, (m.sender i).pending = some call ∧ m'.accepted = m.accepted ++ [call] ∧
          ∀ j, (m'.sender j).pending = if j = i then none else (m.sender j).pending) := by
  cases action with
  | notify i call => cases honSlot
  | lock i =>
    cases hpc : m.sender i with
    | wantLock call =>
      cases hlock : m.lock with
      | none =>
        simp only [mailboxStep, hpc, hlock] at hs
        cases hs
        exact ⟨rfl, .inl ⟨rfl, pending_setSender_of_eq (by rw [hpc]; rfl)⟩⟩
      | some p => simp [mailboxStep, hpc, hlock] at hs
    | _ => simp [mailboxStep, hpc] at hs
  | test i =>
    cases hpc : m.sender i with
    | locked call =>
      simp only [mailboxStep, hpc] at hs
      cases hs
      refine ⟨rfl, .inl ⟨rfl, pending_setSender_of_eq ?_⟩⟩
      rw [hpc]
      split_ifs <;> rfl
    | _ => simp [mailboxStep, hpc] at hs
  | setEvent i =>
    cases hpc : m.sender i with
    | freeSlot call =>
      simp only [mailboxStep, hpc] at hs
      cases hs
      exact ⟨rfl, .inl ⟨rfl, pending_setSender_of_eq (by rw [hpc]; rfl)⟩⟩
    | _ => simp [mailboxStep, hpc] at hs
  | copy i =>
    cases hpc : m.sender i with
    | eventSet call =>
      simp only [mailboxStep, hpc] at hs
      cases hs
      exact ⟨rfl, .inr ⟨i, call, by rw [hpc]; rfl, rfl, pending_setSender m i .copied⟩⟩
    | _ => simp [mailboxStep, hpc] at hs
  | signal i =>
    cases hpc : m.sender i with
    | copied =>
      simp only [mailboxStep, hpc] at hs
      cases hs
      exact ⟨rfl, .inl ⟨rfl, pending_setSender_of_eq (by rw [hpc]; rfl)⟩⟩
    | _ => simp [mailboxStep, hpc] at hs
  | unlock i =>
    cases hpc : m.sender i with
    | signalled =>
      simp only [mailboxStep, hpc] at hs
      cases hs
      exact ⟨rfl, .inl ⟨rfl, pending_setSender_of_eq (by rw [hpc]; rfl)⟩⟩
    | busy call =>
      simp only [mailboxStep, hpc] at hs
      cases hs
      exact ⟨rfl, .inl ⟨rfl, pending_setSender_of_eq (by rw [hpc]; rfl)⟩⟩
    | _ => simp [mailboxStep, hpc] at hs
  | retry i =>
    cases hpc : m.sender i with
    | sleeping call =>
      simp only [mailboxStep, hpc] at hs
      cases hs
      exact ⟨rfl, .inl ⟨rfl, pending_setSender_of_eq (by rw [hpc]; rfl)⟩⟩
    | _ => simp [mailboxStep, hpc] at hs
  | exchangeStart =>
    cases hpc : m.exchange with
    | starting =>
      simp only [mailboxStep, hpc] at hs
      cases hs
      exact ⟨rfl, .inl ⟨rfl, fun _ => rfl⟩⟩
    | _ => simp [mailboxStep, hpc] at hs
  | exchangeLock =>
    cases hpc : m.exchange with
    | wantLock =>
      cases hlock : m.lock with
      | none =>
        simp only [mailboxStep, hpc, hlock] at hs
        cases hs
        exact ⟨rfl, .inl ⟨rfl, fun _ => rfl⟩⟩
      | some p => simp [mailboxStep, hpc, hlock] at hs
    | _ => simp [mailboxStep, hpc] at hs
  | exchangeTest =>
    cases hpc : m.exchange with
    | testing =>
      cases hevent : m.event with
      | _ =>
        simp only [mailboxStep, hpc, hevent] at hs
        cases hs
        exact ⟨rfl, .inl ⟨rfl, fun _ => rfl⟩⟩
    | _ => simp [mailboxStep, hpc] at hs
  | exchangeWake =>
    cases hpc : m.exchange with
    | waiting =>
      simp only [mailboxStep, hpc] at hs
      cases hs
      exact ⟨rfl, .inl ⟨rfl, fun _ => rfl⟩⟩
    | _ => simp [mailboxStep, hpc] at hs
  | exchangeClear => cases honSlot

omit [DecidableEq ι] in
/-- The payloads processed are those of the calls accepted first, of all but one at least. -/
theorem Mailbox.Delivers.split (h : m.Delivers) :
    ∃ handled waiting, m.accepted = handled ++ waiting ∧
      handled.map NotifyCall.systemMsg = m.processed ∧ waiting.length ≤ 1 ∧
        (m.event = .undef → waiting = []) := by
  by_cases hw : m.Writing
  · obtain ⟨hevent, haccepted⟩ := h.writing hw
    exact ⟨m.accepted, [], (List.append_nil _).symm, haccepted, Nat.zero_le 1, fun _ => rfl⟩
  · obtain ⟨handled, waiting, haccepted, hhandled, hwaiting⟩ :=
      List.map_eq_append_iff.mp (h.between hw)
    refine ⟨handled, waiting, haccepted, hhandled, ?_, ?_⟩
    · rw [← List.length_map NotifyCall.systemMsg, hwaiting, Mailbox.slot]
      split_ifs
      · exact le_rfl
      · exact Nat.zero_le 1
    · intro hevent
      rw [Mailbox.slot, if_neg (by rw [hevent]; decide)] at hwaiting
      exact List.map_eq_nil_iff.mp hwaiting

end Slot

/-! ### Runs -/

/-- The calls that the thread of a session has to do with: those accepted, and its own. -/
def MsgSystem.calls (s : MsgSystem ι) (i : ι) : List NotifyCall :=
  s.mailbox.accepted ++ (s.mailbox.sender i).pending.toList

/-- Every session has a user of its own, whose name leaves room for its terminator. -/
structure Sessions (start : Server) : Prop where
  fits : ∀ i u, getUserInfo start (session i) none = some (some u) →
    (start.user u).username.strlen < maxNameLength
  distinct : ∀ i j u v, getUserInfo start (session i) none = some (some u) →
    getUserInfo start (session j) none = some (some v) →
    (start.user u).username = (start.user v).username → i = j

/-- The invariant. What is in the boxes is what was there, what the calls of the session have put
there, and what the payloads processed have delivered. -/
structure MsgSystem.Delivered (start : Server) (s : MsgSystem ι) : Prop where
  slot : s.mailbox.Delivers
  same : SameDirectory start s.server
  fits : ∀ call ∈ s.mailbox.accepted, call.NamesFit
  pending : ∀ i call, (s.mailbox.sender i).pending = some call → call.NamesFit ∧
    ∃ u, getUserInfo start (session i) none = some (some u) ∧
      call.hostName = (start.user u).username
  received : ∀ u c, s.server.texts u .receiptIn c =
    start.texts u .receiptIn c ++ s.mailbox.processed.flatMap (deliveredTo start u c)
  sent : ∀ i u, getUserInfo start (session i) none = some (some u) → ∀ c,
    s.server.texts u .receiptOut c = start.texts u .receiptOut c ++
      ((s.calls i).filter fun call => call.IsFrom (start.user u).username c).map NotifyCall.text

section Step

variable {session} {start : Server} {s s' : MsgSystem ι}

omit [DecidableEq ι] in
theorem delivered_init : MsgSystem.Delivered session start ⟨start, .init⟩ := by
  constructor
  · exact delivers_init
  · exact SameDirectory.refl start
  · intro call hcall
    cases hcall
  · intro i call hi
    cases hi
  · intro u c
    exact (List.append_nil _).symm
  · intro i u _ c
    exact (List.append_nil _).symm

omit [DecidableEq ι] in
theorem MsgSystem.Delivered.getUserInfo (h : s.Delivered session start) (username : CString) :
    getUserInfo s.server username none = ELibrary.getUserInfo start username none :=
  h.same.getUserInfo username

theorem deliveredTo_same {g g' : Server} (h : SameDirectory g g') (u : ℕ) (c : CString) :
    deliveredTo g' u c = deliveredTo g u c := by
  funext payload
  rw [deliveredTo, deliveredTo]
  simp only [h.getUserInfo]

omit [DecidableEq ι] in
theorem MsgSystem.Delivered.deliver (h : s.Delivered session start) {payload : List UInt8}
    (hx : s.mailbox.exchange = .handling payload) {now : ℕ} {g : Server}
    (hg : exchangeMsg s.server payload now ⟨true, true⟩ = some g) :
    MsgSystem.Delivered session start ⟨g, { s.mailbox with
      exchange := .testing, event := .undef, processed := s.mailbox.processed ++ [payload] }⟩ := by
  obtain ⟨hsame, htexts⟩ := texts_exchangeMsg hg
  constructor
  · exact h.slot.clear hx
  · exact h.same.trans hsame
  · exact h.fits
  · exact h.pending
  · intro u c
    change g.texts u .receiptIn c = _ ++ (s.mailbox.processed ++ [payload]).flatMap _
    rw [htexts, if_pos rfl, h.received, deliveredTo_same h.same, List.flatMap_append,
      List.flatMap_singleton, List.append_assoc]
  · intro i u hu c
    change g.texts u .receiptOut c = _
    rw [htexts, if_neg (by decide), List.append_nil]
    exact h.sent i u hu c

omit [DecidableEq ι] in
/-- A session reads, or has a message that is not stored. -/
theorem MsgSystem.Delivered.sameTexts (h : s.Delivered session start) {g : Server}
    (hsame : SameDirectory s.server g)
    (htexts : ∀ u d c, g.texts u d c = s.server.texts u d c) :
    MsgSystem.Delivered session start ⟨g, s.mailbox⟩ := by
  constructor
  · exact h.slot
  · exact h.same.trans hsame
  · exact h.fits
  · exact h.pending
  · intro u c
    rw [htexts]
    exact h.received u c
  · intro i u hu c
    rw [htexts]
    exact h.sent i u hu c

theorem MsgSystem.Delivered.send (h : s.Delivered session start)
    (hsessions : Sessions session start)
    {i : ι} {u : ℕ} {frdName msg : CString} {now : ℕ} {malloc : MsgMallocs}
    {after : ℕ → ℕ → UInt8} {g : Server} (hfrd : frdName.strlen < maxNameLength)
    (hidle : s.mailbox.sender i = .idle)
    (hu : ELibrary.getUserInfo start (session i) none = some (some u))
    (hg : sendReceiveMsg s.server u (some frdName) (some msg) .receiptOut
      s.mailbox.exchange.ready now malloc .ok = some (.ok, g)) :
    MsgSystem.Delivered session start ⟨g, s.mailbox.setSender i
      (.wantLock ⟨(s.server.user u).username, frdName, msg, after⟩)⟩ := by
  have htexts := texts_sendReceiveMsg hg
  have hname : (s.server.user u).username = (start.user u).username := h.same.username u
  rw [hname]
  constructor
  · apply h.slot.stay i (.wantLock _) s.mailbox.exchange _ (.inl rfl) <;>
      simp [hidle, SenderPc.holdsLock]
  · exact h.same.trans (sameDirectory_sendReceiveMsg hg)
  · exact h.fits
  · intro j call hj
    rw [pending_setSender] at hj
    split_ifs at hj with hji
    · cases hj
      exact ⟨⟨hsessions.fits i u hu, hfrd⟩, u, hji ▸ hu, rfl⟩
    · exact h.pending j call hj
  · intro v c
    rw [htexts, if_neg (by simp), List.append_nil]
    exact h.received v c
  · intro j v hv c
    rw [htexts, h.sent j v hv, MsgSystem.calls, MsgSystem.calls, pending_setSender]
    by_cases hji : j = i
    · subst hji
      obtain rfl : u = v := Option.some.inj (Option.some.inj (hu.symm.trans hv))
      rw [if_pos rfl, hidle]
      by_cases hc : frdName = c
      · subst hc
        simp [SenderPc.pending, NotifyCall.IsFrom, NotifyCall.text, Mailbox.setSender]
      · simp [SenderPc.pending, NotifyCall.IsFrom, hc, Ne.symm hc, Mailbox.setSender]
    · have hvu : v ≠ u := by
        rintro rfl
        exact hji (hsessions.distinct j i v v hv hu rfl)
      rw [if_neg hji, if_neg (fun hand => hvu hand.1), List.append_nil]
      rfl

theorem MsgSystem.Delivered.move (h : s.Delivered session start)
    (hsessions : Sessions session start)
    {action : MailboxAction ι} (honSlot : action.onSlot = true) {m : Mailbox ι}
    (hm : mailboxStep s.mailbox action = some m) :
    MsgSystem.Delivered session start ⟨s.server, m⟩ := by
  obtain ⟨hprocessed, hcase⟩ := mailboxStep_onSlot honSlot hm
  have hslot := h.slot.step hm
  have hreceived : ∀ u c, s.server.texts u .receiptIn c =
      start.texts u .receiptIn c ++ m.processed.flatMap (deliveredTo start u c) := by
    intro u c
    rw [hprocessed]
    exact h.received u c
  rcases hcase with ⟨haccepted, hpending⟩ | ⟨i, call, hi, haccepted, hpending⟩
  · refine ⟨hslot, h.same, haccepted ▸ h.fits, ?_, hreceived, ?_⟩
    · intro j call hj
      exact h.pending j call ((hpending j).symm.trans hj)
    · intro j u hu c
      rw [MsgSystem.calls, haccepted, hpending]
      exact h.sent j u hu c
  · obtain ⟨hfits, u, hu, hhost⟩ := h.pending i call hi
    refine ⟨hslot, h.same, ?_, ?_, hreceived, ?_⟩
    · intro c hc
      change c ∈ m.accepted at hc
      rw [haccepted] at hc
      rcases List.mem_append.mp hc with hc | hc
      · exact h.fits c hc
      · exact List.mem_singleton.mp hc ▸ hfits
    · intro j c hj
      change (m.sender j).pending = some c at hj
      rw [hpending] at hj
      split_ifs at hj
      exact h.pending j c hj
    · intro j v hv c
      rw [h.sent j v hv, MsgSystem.calls, MsgSystem.calls, haccepted, hpending]
      by_cases hji : j = i
      · rw [if_pos hji, hji, hi]
        simp
      · have hother : ¬ call.IsFrom (start.user v).username c := by
          rintro ⟨hname, -⟩
          exact hji (hsessions.distinct j i v u hv hu (hname.symm.trans hhost))
        rw [if_neg hji]
        simp [hother]

theorem MsgSystem.Delivered.step (h : s.Delivered session start)
    (hsessions : Sessions session start)
    {action : MsgSystemAction ι} (hpermit : action.Permitted)
    (hs : msgSystemStep session s action = some s') : s'.Delivered session start := by
  cases action with
  | send i frdName msg now malloc after =>
    cases hpc : s.mailbox.sender i with
    | idle =>
      simp only [msgSystemStep, hpc] at hs
      obtain ⟨found, hfound, hs⟩ := Option.bind_eq_some_iff.mp hs
      rw [h.getUserInfo] at hfound
      cases found with
      | none =>
        cases hs
        exact h
      | some u =>
        obtain ⟨⟨status, g⟩, hg, hs⟩ := Option.bind_eq_some_iff.mp hs
        dsimp only at hs
        split_ifs at hs with hstatus
        · subst hstatus
          simp only [mailboxStep, hpc, Option.map_some] at hs
          cases hs
          exact h.send hsessions hpermit hpc hfound hg
        · cases hs
          apply h.sameTexts (sameDirectory_sendReceiveMsg hg)
          intro v d c
          rw [texts_sendReceiveMsg hg, if_neg (fun hand => hstatus hand.2.1), List.append_nil]
    | _ => simp [msgSystemStep, hpc] at hs
  | read i params malloc =>
    cases hpc : s.mailbox.sender i with
    | idle =>
      simp only [msgSystemStep, hpc] at hs
      obtain ⟨⟨reply, g⟩, hg, rfl⟩ := Option.map_eq_some_iff.mp hs
      exact h.sameTexts (sameDirectory_inputMsg hg) (texts_inputMsg hg)
    | _ => simp [msgSystemStep, hpc] at hs
  | deliver now malloc =>
    cases hx : s.mailbox.exchange with
    | handling payload =>
      simp only [msgSystemStep, hx, mailboxStep, Option.map_some] at hs
      obtain ⟨g, hg, hs⟩ := Option.bind_eq_some_iff.mp hs
      cases hs
      obtain rfl : malloc = ⟨true, true⟩ := hpermit
      exact h.deliver hx hg
    | _ => simp [msgSystemStep, hx] at hs
  | move action =>
    rw [msgSystemStep] at hs
    split_ifs at hs with honSlot
    obtain ⟨m, hm, rfl⟩ := Option.map_eq_some_iff.mp hs
    exact h.move hsessions honSlot hm

end Step

/-- In every interleaving of sessions and exchange thread the calls accepted are those handled and
at most one that waits in the slot. Every user has received the texts of the calls handled that
found this user, from each sender in the order of acceptance, and no others; every session has a
copy of the texts of its calls, accepted or on their way to the slot. -/
theorem messages_delivered {start : Server} (hsessions : Sessions session start)
    (actions : List (MsgSystemAction ι))
    (hpermit : ∀ action ∈ actions, action.Permitted) {s : MsgSystem ι}
    (hs : runFrom (msgSystemStep session) ⟨start, .init⟩ actions = some s) :
    ∃ handled waiting, s.mailbox.accepted = handled ++ waiting ∧ waiting.length ≤ 1 ∧
      (s.mailbox.event = .undef → waiting = []) ∧
      (∀ u c, s.server.texts u .receiptIn c = start.texts u .receiptIn c ++
        (handled.filter fun call => call.IsTo start u c).map NotifyCall.text) ∧
      ∀ i u, getUserInfo start (session i) none = some (some u) → ∀ c,
        s.server.texts u .receiptOut c = start.texts u .receiptOut c ++
          ((handled ++ waiting ++ (s.mailbox.sender i).pending.toList).filter fun call =>
            call.IsFrom (start.user u).username c).map NotifyCall.text := by
  have h : s.Delivered session start := by
    apply runFrom_invariant _ delivered_init (along_of_forall_mem hpermit _) hs
    intro t action t' ht haction hstep
    exact ht.step hsessions haction hstep
  obtain ⟨handled, waiting, haccepted, hhandled, hlength, hempty⟩ := h.slot.split
  refine ⟨handled, waiting, haccepted, hlength, hempty, ?_, ?_⟩
  · intro u c
    rw [h.received, ← hhandled, flatMap_deliveredTo]
    intro call hcall
    apply h.fits
    rw [haccepted]
    exact List.mem_append_left waiting hcall
  · intro i u hu c
    rw [h.sent i u hu, MsgSystem.calls, haccepted]

def annaAndBen : Server :=
  { Server.init with
    user := fun u => { UserInfo.zero with username := if u = 0 then anna else ben }
    userList := [0, 1] }

def theirSessions (i : Bool) : CString := if i then ben else anna

def oneMessage : List (MsgSystemAction Bool) :=
  [.move .exchangeStart, .move .exchangeLock, .move .exchangeTest,
    .send false ben hello 0 ⟨true, true⟩ fun _ _ => 0,
    .move (.lock false), .move (.test false), .move (.setEvent false), .move (.copy false),
    .move (.signal false), .move (.unlock false),
    .move .exchangeLock, .move .exchangeTest, .deliver 0 ⟨true, true⟩]

theorem theirSessions_sessions : Sessions theirSessions annaAndBen := by
  have hfound : ∀ i u, getUserInfo annaAndBen (theirSessions i) none = some (some u) →
      u = i.toNat := by
    intro i u hu
    have hhost : getUserInfo annaAndBen (theirSessions i) none = some (some i.toNat) := by
      cases i <;> rfl
    exact Option.some.inj (Option.some.inj (hu.symm.trans hhost))
  constructor
  · intro i u hu
    rw [hfound i u hu]
    cases i <;> decide
  · intro i j u v hu hv hname
    rw [hfound i u hu, hfound j v hv] at hname
    clear hu hv
    revert i j
    decide

theorem messages_delivered_example :
    ∃ s, runFrom (msgSystemStep theirSessions) ⟨annaAndBen, .init⟩ oneMessage = some s ∧
      ∃ handled waiting, s.mailbox.accepted = handled ++ waiting ∧ waiting.length ≤ 1 ∧
        s.server.texts 1 .receiptIn anna =
          (handled.filter fun call => call.IsTo annaAndBen 1 anna).map NotifyCall.text := by
  have hpermit : ∀ action ∈ oneMessage, action.Permitted := by
    simp [oneMessage, MsgSystemAction.Permitted]
    decide
  have hrun :
      (runFrom (msgSystemStep theirSessions) ⟨annaAndBen, .init⟩ oneMessage).isSome = true := rfl
  obtain ⟨s, hs⟩ := Option.isSome_iff_exists.mp hrun
  obtain ⟨handled, waiting, haccepted, hlength, -, hreceived, -⟩ :=
    messages_delivered theirSessions theirSessions_sessions oneMessage hpermit hs
  exact ⟨s, hs, handled, waiting, haccepted, hlength, hreceived 1 anna⟩

example : (runFrom (msgSystemStep theirSessions) ⟨annaAndBen, .init⟩ oneMessage).map
    (fun s => s.server.texts 1 .receiptIn anna) = some [hello] := rfl

end MorningProjects.ELibrary
