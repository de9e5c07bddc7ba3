import MorningProjects.ELibrary.Directory
import MorningProjects.Library.Runs
import Mathlib.Algebra.Order.BigOperators.Group.List

/-!
# Message boxes

A box groups its messages by contact. Reading a contact clears the count of its
unread messages but not their flags, looks behind the fifth message, and takes a
contact without messages for one. A run keeps the counters in step with the
messages as long as nothing unread is read.
-/
namespace MorningProjects.ELibrary
open Library

structure MsgMallocs where
  newContext : Bool
  msgNode : Bool

def getMsgNode (box : MsgBox) (frdName : CString) : Option MsgNode :=
  box.msgs.find? fun node => frdName.strcmp node.contact = 0

def updateMsgNode (frdName : CString) (write : MsgNode → MsgNode) : List MsgNode → List MsgNode
  | [] => []
  | node :: nodes =>
    if frdName.strcmp node.contact = 0 then write node :: nodes
    else node :: updateMsgNode frdName write nodes

/-- The message that `sendReceiveMsg` fills in. Its field is `MAX_EMAIL_LENGTH` wide, taken to be
more than `MAX_MSG_LENGTH`. -/
def newMsg (msg : CString) (direction : MsgDirection) (now : ℕ) : MsgFormat :=
  ⟨direction, direction = .receiptIn, now, msg.strncpy maxMsgLength⟩

def MsgNode.push (node : MsgNode) (context : MsgFormat) : MsgNode :=
  { node with
    contexts := context :: node.contexts
    numMsg := node.numMsg + 1
    numUnread := if context.io = .receiptIn then node.numUnread + 1 else node.numUnread }

def MsgBox.push (box : MsgBox) (frdName : CString) (context : MsgFormat) : MsgBox :=
  { numMsg := box.numMsg + 1
    numUnread := if context.io = .receiptIn then box.numUnread + 1 else box.numUnread
    msgs := updateMsgNode frdName (fun node => node.push context) box.msgs }

def MsgBox.addNode (box : MsgBox) (frdName : CString) : MsgBox :=
  { box with msgs := ⟨frdName, 0, 0, []⟩ :: box.msgs }

def Server.setBox (g : Server) (host : ℕ) (box : MsgBox) : Server :=
  g.setUser host { g.user host with msgBox := box }

@[simp] theorem setBox_msgBox_self (g : Server) (host : ℕ) (box : MsgBox) :
    ((g.setBox host box).user host).msgBox = box := by
  rw [Server.setBox, setUser_user_self]

@[simp] theorem setBox_user_of_ne (g : Server) {host u : ℕ} (h : u ≠ host) (box : MsgBox) :
    (g.setBox host box).user u = g.user u := setUser_user_of_ne g h _

@[simp] theorem setBox_username (g : Server) (host : ℕ) (box : MsgBox) (u : ℕ) :
    ((g.setBox host box).user u).username = (g.user u).username := by
  by_cases hu : u = host
  · rw [hu, Server.setBox, setUser_user_self]
  · rw [setBox_user_of_ne g hu]

theorem setBox_self (g : Server) (host : ℕ) : g.setBox host (g.user host).msgBox = g :=
  congrArg (fun user => { g with user := user }) (Function.update_eq_self host g.user)

/-- `sendReceiveMsg` on the box of the host, up to the notification. -/
def storeMsg (box : MsgBox) (frdName : CString) (context : MsgFormat) (malloc : MsgMallocs) :
    Option (SystemStatus × MsgBox) :=
  if malloc.newContext then
    match getMsgNode box frdName with
    | some _ => some (.ok, box.push frdName context)
    | none =>
      if malloc.msgNode then
        -- the zeroed bytes behind `contact` terminate a name that fills it; a longer one is
        -- written past the field
        if maxNameLength < frdName.strlen then none
        else some (.ok, (box.addNode frdName).push frdName context)
      else some (.fail, box)
  else some (.fail, box)

/-- The exchange thread is `ready` or not, and `notified` is what `notifyExchange` returns. -/
def sendReceiveMsg (g : Server) (host : ℕ) (frdName msg : Option CString)
    (direction : MsgDirection) (ready : Bool) (now : ℕ) (malloc : MsgMallocs)
    (notified : SystemStatus) : Option (SystemStatus × Server) :=
  match frdName, msg with
  | some frdName, some msg =>
    if ready = false then some (.fail, g)
    else
      (storeMsg (g.user host).msgBox frdName (newMsg msg direction now) malloc).map
        fun (status, box) =>
          (if status = .ok ∧ direction = .receiptOut then notified else status,
            g.setBox host box)
  | _, _ => some (.invalidParam, g)

/-- The loop of `briefMsgContexts`: the number of messages written. -/
def briefFrom (counter : ℕ) : List MsgFormat → Option ℕ
  | [] => if 4 < counter then none else some counter
  | _ :: contexts => briefFrom (counter + 1) contexts

/-- The counts in the first line of the text, if there is memory for it, and the node. -/
def briefMsgContexts (node : MsgNode) (malloc : Bool) :
    Option (Option (UInt32 × UInt32) × MsgNode) :=
  if malloc then
    (briefFrom 0 node.contexts).map fun _ =>
      (some (node.numMsg, node.numUnread), { node with numUnread := 0 })
  else some (none, node)

/-- The test behind the search is about the address of the result, not the node. -/
def getMsgInfo (box : MsgBox) (frdName : Option CString) : SystemStatus × Option MsgNode :=
  match frdName with
  | none => (.invalidParam, none)
  | some frdName => (.ok, getMsgNode box frdName)

inductive MsgReply where
  | errCmdInvalid
  | errGeneral
  | contexts (brief : Option (UInt32 × UInt32))
  deriving DecidableEq

/-- `eLibrary_SVR_input_Msg` for `msg -f`, with the parameters of the command. -/
def inputMsg (g : Server) (userName : CString) (params : List CString) (malloc : Bool) :
    Option (MsgReply × Server) :=
  (getUserInfo g userName none).bind fun found =>
    match found, params with
    | none, _ => some (.errGeneral, g)
    | some _, [] => some (.errCmdInvalid, g)
    | some host, frdName :: _ =>
      let box := (g.user host).msgBox
      match getMsgInfo box (some frdName) with
      | (.ok, node) =>
        node.bind fun node =>
          (briefMsgContexts node malloc).map fun (brief, node') =>
            (.contexts brief, g.setBox host
              { box with
                msgs := updateMsgNode frdName (fun _ => node') box.msgs
                numUnread := box.numUnread - node.numUnread })
      | _ => some (.errGeneral, g)

/-- The node found is written where it stands. -/
theorem getMsgNode_split {box : MsgBox} {frdName : CString} {node : MsgNode}
    (h : getMsgNode box frdName = some node) :
    node.contact = frdName ∧ ∃ xs ys, box.msgs = xs ++ node :: ys ∧
      ∀ write, updateMsgNode frdName write box.msgs = xs ++ write node :: ys := by
  obtain ⟨hnode, xs, ys, hsplit, hxs⟩ := List.find?_eq_some_iff_append.mp h
  have hcontact : frdName = node.contact := by simpa using hnode
  refine ⟨hcontact.symm, xs, ys, hsplit, ?_⟩
  intro write
  rw [hsplit]
  clear hsplit h
  induction xs with
  | nil => rw [List.nil_append, updateMsgNode, if_pos (by simpa using hcontact), List.nil_append]
  | cons x xs ih =>
    have hx : frdName ≠ x.contact := by simpa using hxs x List.mem_cons_self
    rw [List.cons_append, updateMsgNode, if_neg (by simpa using hx),
      ih fun y hy => hxs y (List.mem_cons_of_mem x hy), List.cons_append]

@[simp] theorem getMsgNode_addNode (box : MsgBox) (frdName : CString) :
    getMsgNode (box.addNode frdName) frdName = some ⟨frdName, 0, 0, []⟩ := by
  simp [getMsgNode, MsgBox.addNode]

/-- A reader writes five messages at most behind which there is no other. -/
theorem briefFrom_eq (counter : ℕ) (contexts : List MsgFormat) :
    briefFrom counter contexts =
      if 4 < counter + contexts.length then none else some (counter + contexts.length) := by
  induction contexts generalizing counter with
  | nil => rfl
  | cons context contexts ih =>
    rw [briefFrom, ih, List.length_cons, Nat.add_assoc, Nat.add_comm 1]

/-! ### Counters in step -/

structure MsgNode.InStep (node : MsgNode) : Prop where
  numMsg : node.numMsg.toNat = node.contexts.length
  numUnread : node.numUnread.toNat = node.contexts.countP fun context => context.unread

structure MsgBox.InStep (box : MsgBox) : Prop where
  numMsg : box.numMsg.toNat = (box.msgs.map fun node => node.numMsg.toNat).sum
  numUnread : box.numUnread.toNat = (box.msgs.map fun node => node.numUnread.toNat).sum
  node : ∀ node ∈ box.msgs, node.InStep

theorem MsgNode.InStep.numUnread_le {node : MsgNode} (h : node.InStep) :
    node.numUnread.toNat ≤ node.numMsg.toNat := by
  rw [h.numUnread, h.numMsg]
  exact List.countP_le_length

theorem MsgBox.InStep.numUnread_le {box : MsgBox} (h : box.InStep) :
    box.numUnread.toNat ≤ box.numMsg.toNat := by
  rw [h.numUnread, h.numMsg]
  apply List.sum_le_sum
  intro node hnode
  exact (h.node node hnode).numUnread_le

theorem MsgNode.InStep.push {node : MsgNode} (h : node.InStep) {context : MsgFormat}
    (hunread : context.unread = decide (context.io = .receiptIn))
    (hroom : node.numMsg.toNat + 1 < 2 ^ 32) : (node.push context).InStep := by
  have hle := h.numUnread_le
  constructor
  · change (node.numMsg + 1).toNat = node.contexts.length + 1
    rw [toNat_succ hroom, h.numMsg]
  · change (if context.io = .receiptIn then node.numUnread + 1 else node.numUnread).toNat =
      (context :: node.contexts).countP fun context => context.unread
    rw [List.countP_cons, ← h.numUnread, hunread]
    by_cases hio : context.io = .receiptIn
    · rw [if_pos hio, toNat_succ (by omega), if_pos (decide_eq_true hio)]
    · rw [if_neg hio, decide_eq_false hio]
      rfl

theorem MsgBox.InStep.addNode {box : MsgBox} (h : box.InStep) (frdName : CString) :
    (box.addNode frdName).InStep := by
  constructor
  · simpa [MsgBox.addNode] using h.numMsg
  · simpa [MsgBox.addNode] using h.numUnread
  · intro node hnode
    rcases List.mem_cons.mp hnode with rfl | hnode
    · exact ⟨rfl, rfl⟩
    · exact h.node node hnode

theorem MsgBox.InStep.push {box : MsgBox} (h : box.InStep) {frdName : CString} {node : MsgNode}
    (hnode : getMsgNode box frdName = some node) {context : MsgFormat}
    (hunread : context.unread = decide (context.io = .receiptIn))
    (hroom : box.numMsg.toNat + 1 < 2 ^ 32) : (box.push frdName context).InStep := by
  obtain ⟨-, xs, ys, hsplit, hwrite⟩ := getMsgNode_split hnode
  have hle := h.numUnread_le
  have hmsg := h.numMsg
  have hunr := h.numUnread
  have hin : node.InStep := h.node node (by simp [hsplit])
  have hnodele := hin.numUnread_le
  rw [hsplit] at hmsg hunr
  simp only [List.map_append, List.map_cons, List.sum_append, List.sum_cons] at hmsg hunr
  have hnoderoom : node.numMsg.toNat + 1 < 2 ^ 32 := by omega
  constructor
  · change (box.numMsg + 1).toNat = ((updateMsgNode frdName _ box.msgs).map _).sum
    rw [hwrite, toNat_succ hroom]
    simp only [List.map_append, List.map_cons, List.sum_append, List.sum_cons, MsgNode.push]
    rw [toNat_succ hnoderoom]
    omega
  · change (if context.io = .receiptIn then box.numUnread + 1 else box.numUnread).toNat =
      ((updateMsgNode frdName _ box.msgs).map _).sum
    rw [hwrite]
    simp only [List.map_append, List.map_cons, List.sum_append, List.sum_cons, MsgNode.push]
    by_cases hio : context.io = .receiptIn
    · rw [if_pos hio, if_pos hio, toNat_succ (by omega), toNat_succ (by omega)]
      omega
    · rw [if_neg hio, if_neg hio]
      omega
  · intro other hother
    have hmem : other ∈ updateMsgNode frdName (fun node => node.push context) box.msgs := hother
    rw [hwrite] at hmem
    rcases List.mem_append.mp hmem with hmem | hmem
    · exact h.node other (by simp [hsplit, hmem])
    · rcases List.mem_cons.mp hmem with rfl | hmem
      · exact hin.push hunread hnoderoom
      · exact h.node other (by simp [hsplit, hmem])

/-! ### Runs -/

inductive MsgOp where
  | addUser (userName email : CString) (malloc : UserMallocs)
  | sendReceiveMsg (host : ℕ) (frdName msg : Option CString) (direction : MsgDirection)
      (ready : Bool) (now : ℕ) (malloc : MsgMallocs) (notified : SystemStatus)
  | inputMsg (userName : CString) (params : List CString) (malloc : Bool)

def msgStep (layout : UserLayout) (g : Server) : MsgOp → Option Server
  | .addUser userName email malloc => (addUser layout g userName email malloc).map Prod.snd
  | .sendReceiveMsg host frdName msg direction ready now malloc notified =>
    (sendReceiveMsg g host frdName msg direction ready now malloc notified).map Prod.snd
  | .inputMsg userName params malloc => (inputMsg g userName params malloc).map Prod.snd

/-- A box takes a message: it has a node for the contact, or the name fits into a new one,
and the counter has room. -/
def MsgBox.Takes (box : MsgBox) (frdName : CString) : Prop :=
  ((getMsgNode box frdName).isSome ∨ frdName.strlen ≤ maxNameLength) ∧
    box.numMsg.toNat + 1 < 2 ^ 32

/-- Nothing is wrong with reading a contact: it has messages, none of them unread, and no
more than four if there is memory for the text. -/
def MsgBox.Reads (box : MsgBox) (frdName : CString) (malloc : Bool) : Prop :=
  ∃ node, getMsgNode box frdName = some node ∧ node.numUnread = 0 ∧
    (malloc = true → node.contexts.length ≤ 4)

/-- The condition on a call. What is stored fits, and what is read can be read. -/
def Server.MeetsMsg (g : Server) : MsgOp → Prop
  | .addUser _ _ _ => True
  | .sendReceiveMsg host (some frdName) (some _) _ true _ malloc _ =>
    malloc.newContext →
      ((getMsgNode (g.user host).msgBox frdName).isSome ∨ malloc.msgNode) →
        (g.user host).msgBox.Takes frdName
  | .sendReceiveMsg _ _ _ _ _ _ _ _ => True
  | .inputMsg userName (frdName :: _) malloc =>
    ∀ host, getUserInfo g userName none = some (some host) →
      (g.user host).msgBox.Reads frdName malloc
  | .inputMsg _ [] _ => True

/-- What a call has to do: come back, take no more unread messages off a box than it
counts, and leave everything as it is when a contact without messages is read. -/
def Server.MsgCallMeets (layout : UserLayout) (g : Server) : MsgOp → Prop
  | .addUser _ _ _ => True
  | .sendReceiveMsg host frdName msg direction ready now malloc notified =>
    ∃ g', msgStep layout g
      (.sendReceiveMsg host frdName msg direction ready now malloc notified) = some g'
  | .inputMsg userName params malloc =>
    ∃ reply g', inputMsg g userName params malloc = some (reply, g') ∧
      ∀ frdName rest, params = frdName :: rest →
        ∀ host, getUserInfo g userName none = some (some host) →
          (getMsgNode (g.user host).msgBox frdName = none → reply = .errGeneral ∧ g' = g) ∧
            ∀ node, getMsgNode (g.user host).msgBox frdName = some node →
              node.numUnread ≤ (g.user host).msgBox.numUnread

theorem MsgBox.InStep.storeMsg {box : MsgBox} (h : box.InStep) {frdName : CString}
    (context : MsgFormat) {malloc : MsgMallocs}
    (hunread : context.unread = decide (context.io = .receiptIn))
    (hmeet : malloc.newContext → ((getMsgNode box frdName).isSome ∨ malloc.msgNode) →
      box.Takes frdName) :
    ∃ status box', storeMsg box frdName context malloc = some (status, box') ∧ box'.InStep := by
  rw [ELibrary.storeMsg]
  by_cases hcontext : malloc.newContext
  · rw [if_pos hcontext]
    cases hnode : getMsgNode box frdName with
    | some node =>
      have htakes := hmeet hcontext (.inl (by rw [hnode]; rfl))
      exact ⟨.ok, _, rfl, h.push hnode hunread htakes.2⟩
    | none =>
      dsimp only
      by_cases hmalloc : malloc.msgNode
      · have htakes := hmeet hcontext (.inr hmalloc)
        have hlength : frdName.strlen ≤ maxNameLength := by
          apply htakes.1.resolve_left
          rw [hnode]
          exact Bool.false_ne_true
        rw [if_pos hmalloc, if_neg (by omega)]
        exact ⟨.ok, _, rfl,
          (h.addNode frdName).push (getMsgNode_addNode box frdName) hunread htakes.2⟩
      · rw [if_neg hmalloc]
        exact ⟨.fail, box, rfl, h⟩
  · rw [if_neg hcontext]
    exact ⟨.fail, box, rfl, h⟩

theorem boxes_setBox {g : Server} (h : ∀ u, (g.user u).msgBox.InStep) (host : ℕ) {box : MsgBox}
    (hbox : box.InStep) : ∀ u, ((g.setBox host box).user u).msgBox.InStep := by
  intro u
  by_cases hu : u = host
  · rwa [hu, setBox_msgBox_self]
  · rw [setBox_user_of_ne g hu]
    exact h u

theorem boxes_sendReceiveMsg {g : Server} (h : ∀ u, (g.user u).msgBox.InStep) {host : ℕ}
    {frdName msg : Option CString} {direction : MsgDirection} {ready : Bool} {now : ℕ}
    {malloc : MsgMallocs} {notified : SystemStatus}
    (hmeet : g.MeetsMsg (.sendReceiveMsg host frdName msg direction ready now malloc notified)) :
    ∃ status g', sendReceiveMsg g host frdName msg direction ready now malloc notified =
      some (status, g') ∧ ∀ u, (g'.user u).msgBox.InStep := by
  cases frdName with
  | none => exact ⟨.invalidParam, g, rfl, h⟩
  | some frdName =>
    cases msg with
    | none => exact ⟨.invalidParam, g, rfl, h⟩
    | some msg =>
      cases ready with
      | false => exact ⟨.fail, g, rfl, h⟩
      | true =>
        obtain ⟨status, box, hstore, hbox⟩ :=
          (h host).storeMsg (newMsg msg direction now) rfl hmeet
        rw [sendReceiveMsg, if_neg Bool.true_eq_false.mp, hstore]
        exact ⟨_, _, rfl, boxes_setBox h host hbox⟩

/-- What can be read without harm is not changed by reading. -/
theorem inputMsg_eq {g : Server} {userName frdName : CString} (rest : List CString)
    {malloc : Bool} {host : ℕ} (hhost : getUserInfo g userName none = some (some host))
    (hreads : (g.user host).msgBox.Reads frdName malloc) :
    ∃ brief, inputMsg g userName (frdName :: rest) malloc = some (.contexts brief, g) := by
  obtain ⟨node, hnode, hunread, hfour⟩ := hreads
  obtain ⟨-, xs, ys, hsplit, hwrite⟩ := getMsgNode_split hnode
  have hself : updateMsgNode frdName (fun _ => node) (g.user host).msgBox.msgs =
      (g.user host).msgBox.msgs := by
    rw [hwrite, ← hsplit]
  have hzero : (g.user host).msgBox.numUnread - node.numUnread =
      (g.user host).msgBox.numUnread := by
    rw [hunread, UInt32.sub_zero]
  have hbrief : ∃ brief, briefMsgContexts node malloc = some (brief, node) := by
    cases malloc with
    | false => exact ⟨none, rfl⟩
    | true =>
      have hle := hfour rfl
      refine ⟨some (node.numMsg, node.numUnread), ?_⟩
      rw [briefMsgContexts, if_pos rfl, briefFrom_eq, if_neg (by omega), Option.map_some]
      rw [← hunread]
  obtain ⟨brief, hbrief⟩ := hbrief
  refine ⟨brief, ?_⟩
  rw [inputMsg, hhost, Option.bind_some]
  dsimp only [getMsgInfo]
  rw [hnode, Option.bind_some, hbrief, Option.map_some]
  dsimp only
  rw [hself, hzero]
  exact congrArg (fun g' => some (MsgReply.contexts brief, g')) (setBox_self g host)

theorem boxes_inputMsg {g : Server} {userName : CString} {params : List CString} {malloc : Bool}
    (hmeet : g.MeetsMsg (.inputMsg userName params malloc)) :
    ∃ reply, inputMsg g userName params malloc = some (reply, g) := by
  cases hfound : g.userList.find? fun u => (g.user u).username.StartsWith userName with
  | none => exact ⟨.errGeneral, by rw [inputMsg, getUserInfo_eq, hfound]; rfl⟩
  | some host =>
    cases params with
    | nil => exact ⟨.errCmdInvalid, by rw [inputMsg, getUserInfo_eq, hfound]; rfl⟩
    | cons frdName rest =>
      have hhost : getUserInfo g userName none = some (some host) := by
        rw [getUserInfo_eq, hfound]
      obtain ⟨brief, hbrief⟩ := inputMsg_eq rest hhost (hmeet host hhost)
      exact ⟨.contexts brief, hbrief⟩

theorem boxes_addUser {layout : UserLayout} {g g' : Server} (h : ∀ u, (g.user u).msgBox.InStep)
    {userName email : CString} {malloc : UserMallocs}
    (hg : msgStep layout g (.addUser userName email malloc) = some g') :
    ∀ u, (g'.user u).msgBox.InStep := by
  obtain ⟨⟨status, g'⟩, hadd, rfl⟩ := Option.map_eq_some_iff.mp hg
  rcases addUser_cases hadd with rfl | ⟨v, -, -, -, huser⟩
  · exact h
  · intro u
    change (g'.user u).msgBox.InStep
    by_cases hu : u = v
    · rw [hu, huser, Function.update_self]
      constructor
      · rfl
      · rfl
      · intro node hnode
        cases hnode
    · rw [huser, Function.update_of_ne hu]
      exact h u

theorem boxes_step {layout : UserLayout} {g g' : Server} {op : MsgOp}
    (h : ∀ u, (g.user u).msgBox.InStep) (hmeet : g.MeetsMsg op)
    (hg : msgStep layout g op = some g') : ∀ u, (g'.user u).msgBox.InStep := by
  cases op with
  | addUser userName email malloc => exact boxes_addUser h hg
  | sendReceiveMsg host frdName msg direction ready now malloc notified =>
    obtain ⟨status, t, ht, hboxes⟩ := boxes_sendReceiveMsg h hmeet
    rw [msgStep, ht] at hg
    cases hg
    exact hboxes
  | inputMsg userName params malloc =>
    obtain ⟨reply, ht⟩ := boxes_inputMsg hmeet
    rw [msgStep, ht] at hg
    cases hg
    exact h

theorem msgCallMeets (layout : UserLayout) {g : Server} {op : MsgOp}
    (h : ∀ u, (g.user u).msgBox.InStep) (hmeet : g.MeetsMsg op) :
    g.MsgCallMeets layout op := by
  cases op with
  | addUser userName email malloc => trivial
  | sendReceiveMsg host frdName msg direction ready now malloc notified =>
    obtain ⟨status, g', hg', -⟩ := boxes_sendReceiveMsg h hmeet
    exact ⟨g', by rw [msgStep, hg']; rfl⟩
  | inputMsg userName params malloc =>
    obtain ⟨reply, hreply⟩ := boxes_inputMsg hmeet
    refine ⟨reply, g, hreply, ?_⟩
    rintro frdName rest rfl host hhost
    obtain ⟨node, hnode, hunread, -⟩ := hmeet host hhost
    constructor
    · intro hnone
      rw [hnone] at hnode
      cases hnode
    · intro node' hnode'
      rw [hnode] at hnode'
      cases hnode'
      rw [hunread]
      exact UInt32.zero_le

/-- In every run whose calls meet their conditions, every call does what it has to do, and
in every state reached the counters of every box are in step with its messages. -/
theorem msg_run_inStep (layout : UserLayout) (ops : List MsgOp)
    (hops : Along (msgStep layout) Server.MeetsMsg Server.init ops) :
    Along (msgStep layout) (Server.MsgCallMeets layout) Server.init ops ∧
      ∀ g, runFrom (msgStep layout) Server.init ops = some g →
        ∀ u, (g.user u).msgBox.InStep := by
  have hinit : ∀ u, (Server.init.user u).msgBox.InStep := by
    intro u
    constructor
    · rfl
    · rfl
    · intro node hnode
      cases hnode
  have hstep : ∀ (g : Server) op g', (∀ u, (g.user u).msgBox.InStep) → g.MeetsMsg op →
      msgStep layout g op = some g' → ∀ u, (g'.user u).msgBox.InStep :=
    fun g op g' h hmeet hg => boxes_step h hmeet hg
  constructor
  · apply along_of_invariant hstep _ hinit hops
    intro g op h hmeet
    exact msgCallMeets layout h hmeet
  · intro g hg
    exact runFrom_invariant hstep hinit hops hg

def anna : CString := ⟨[65, 110, 110, 97], by decide⟩
def ben : CString := ⟨[66, 101, 110], by decide⟩
def hello : CString := ⟨[72, 101, 108, 108, 111], by decide⟩

theorem msg_run_inStep_example :
    ∃ g, runFrom (msgStep smallLayout) Server.init
        [.addUser anna anna ⟨some 0, true, true⟩,
          .sendReceiveMsg 0 (some ben) (some hello) .receiptOut true 0 ⟨true, true⟩ .ok,
          .inputMsg anna [ben] true] = some g ∧ ∀ u, (g.user u).msgBox.InStep := by
  have hops : Along (msgStep smallLayout) Server.MeetsMsg Server.init
      [.addUser anna anna ⟨some 0, true, true⟩,
        .sendReceiveMsg 0 (some ben) (some hello) .receiptOut true 0 ⟨true, true⟩ .ok,
        .inputMsg anna [ben] true] := by
    constructor
    · trivial
    rintro _ ⟨⟩
    constructor
    · have hlength : ben.strlen ≤ maxNameLength := by decide
      have hroom : (0 : UInt32).toNat + 1 < 2 ^ 32 := by decide
      exact fun _ _ => ⟨.inr hlength, hroom⟩
    rintro _ ⟨⟩
    constructor
    · have hfour : 1 ≤ 4 := by decide
      rintro host ⟨⟩
      exact ⟨_, rfl, rfl, fun _ => hfour⟩
    · intro g _
      trivial
  exact ⟨_, rfl, (msg_run_inStep smallLayout _ hops).2 _ rfl⟩

/-- A message that has been read still says that it is unread. Reading a contact without
messages ends in a dereference of NULL. -/
theorem msg_run_not_inStep :
    (∃ g, runFrom (msgStep smallLayout) Server.init
        [.addUser anna anna ⟨some 0, true, true⟩,
          .sendReceiveMsg 0 (some ben) (some hello) .receiptIn true 0 ⟨true, true⟩ .ok,
          .inputMsg anna [ben] true] = some g ∧ ¬ (g.user 0).msgBox.InStep) ∧
      runFrom (msgStep smallLayout) Server.init
        [.addUser anna anna ⟨some 0, true, true⟩, .inputMsg anna [ben] true] = none := by
  constructor
  · refine ⟨_, rfl, fun h => ?_⟩
    have hcount : 0 = 1 := (h.node _ List.mem_cons_self).numUnread
    cases hcount
  · rfl

end MorningProjects.ELibrary
