import MorningProjects.Library.CString
import MorningProjects.Library.Runs

/-!
# The echo of chatty

The client writes its data once, reads once and prints what it read; the child that the
server has for it reads into a buffer, prints the buffer and writes back what it read,
over and over. Every call moves as many bytes as it likes. The two print with `%s`, the
server from a buffer that it cleared once, the client from one that it never cleared.
-/
namespace MorningProjects.Chatty
open Library

def lineLenMax : ℕ := 80

inductive ClientAt where
  | write
  | read
  | printed
  | failed
  deriving DecidableEq, Repr

/-- Where `str_echo` is; it writes as many bytes as it has read. -/
inductive ServerAt where
  | read
  | write (n : ℕ)
  | left
  deriving DecidableEq, Repr

/-- A connection: the bytes on their way, the two programs with their buffers, what the client
has read and what both have printed; a text without a terminator in its buffer is `none`. -/
structure Echo where
  toServer : List UInt8
  toClient : List UInt8
  clientAt : ClientAt
  lineOut : List UInt8
  serverAt : ServerAt
  buf : List UInt8
  received : List UInt8
  clientPrint : Option (Option CString)
  serverPrints : List (Option CString)

/-- The two programs before the connection is used; `line_out` has no initial value. -/
def Echo.start (lineOut : List UInt8) : Echo :=
  ⟨[], [], .write, lineOut, .read, List.replicate lineLenMax 0, [], none, []⟩

/-- A system call with the number of bytes that it moves, or none if it fails or meets the end
of the connection. -/
inductive EchoStep where
  | clientWrite (n : ℕ)
  | clientRead (n : ℕ)
  | serverRead (n : ℕ)
  | serverWrite (n : ℕ)

def Echo.takeCmdWrite (p : List UInt8) (n : ℕ) (s : Echo) : Echo :=
  if n = 0 then { s with clientAt := .failed }
  else { s with toServer := s.toServer ++ p.take n, clientAt := .read }

def Echo.takeCmdRead (n : ℕ) (s : Echo) : Echo :=
  if n = 0 then { s with clientAt := .failed }
  else
    let lineOut := s.toClient.take n ++ s.lineOut.drop n
    { s with
      toClient := s.toClient.drop n, lineOut := lineOut, received := s.toClient.take n,
      clientPrint := some (CString.ofBuffer lineOut), clientAt := .printed }

def Echo.strEchoRead (n : ℕ) (s : Echo) : Echo :=
  if n = 0 then { s with serverAt := .left }
  else
    let buf := s.toServer.take n ++ s.buf.drop n
    { s with
      toServer := s.toServer.drop n, buf := buf,
      serverPrints := CString.ofBuffer buf :: s.serverPrints, serverAt := .write n }

/-- The result of `write` is not looked at. -/
def Echo.strEchoWrite (n : ℕ) (s : Echo) : Echo :=
  { s with toClient := s.toClient ++ s.buf.take n, serverAt := .read }

def echoStep (p : List UInt8) (s : Echo) : EchoStep → Option Echo
  | .clientWrite n =>
    if s.clientAt = .write ∧ n ≤ p.length then some (s.takeCmdWrite p n) else none
  | .clientRead n =>
    if s.clientAt = .read ∧ n ≤ min lineLenMax s.toClient.length then some (s.takeCmdRead n)
    else none
  | .serverRead n =>
    if s.serverAt = .read ∧ n ≤ min lineLenMax s.toServer.length then some (s.strEchoRead n)
    else none
  | .serverWrite n =>
    match s.serverAt with
    | .write all => if n ≤ all then some (s.strEchoWrite n) else none
    | .read | .left => none

def Echo.Complete (s : Echo) : EchoStep → Prop
  | .serverWrite n => s.serverAt = .write n
  | .clientWrite _ | .clientRead _ | .serverRead _ => True

instance (s : Echo) (step : EchoStep) : Decidable (s.Complete step) :=
  match step with
  | .serverWrite n => inferInstanceAs (Decidable (s.serverAt = .write n))
  | .clientWrite _ | .clientRead _ | .serverRead _ => isTrue trivial

/-! ### What is on its way -/

def Echo.inServer (s : Echo) : List UInt8 :=
  match s.serverAt with
  | .write n => s.buf.take n
  | .read | .left => []

/-- The bytes of the client, in the order in which it wrote them. -/
def Echo.transit (s : Echo) : List UInt8 := s.received ++ s.toClient ++ s.inServer ++ s.toServer

/-- What every state keeps, for data `p` of the client: before it has written nothing is on its
way, before it has read nothing is received, bytes get lost at most, the server's buffer stays
clear behind the size of the data, and the client printed what it had received first. -/
structure Echo.Kept (p : List UInt8) (s : Echo) : Prop where
  nothing : s.clientAt = .write → s.transit = []
  unread : s.clientAt = .write ∨ s.clientAt = .read → s.received = []
  sublist : s.transit.Sublist p
  clear : s.buf.drop p.length = List.replicate (lineLenMax - p.length) 0
  prints : p.length < lineLenMax → none ∉ s.serverPrints
  shown : ∀ text, s.clientPrint = some text →
    ∃ rest, text = CString.ofBuffer (s.received ++ rest)

section Step

variable {p : List UInt8} {s s' : Echo} {call : EchoStep}

theorem echoStep_cases (h : echoStep p s call = some s') :
    (∃ n, call = .clientWrite n ∧ s.clientAt = .write ∧ s' = s.takeCmdWrite p n) ∨
    (∃ n, call = .clientRead n ∧ s.clientAt = .read ∧ n ≤ s.toClient.length ∧
      s' = s.takeCmdRead n) ∨
    (∃ n, call = .serverRead n ∧ s.serverAt = .read ∧ n ≤ s.toServer.length ∧
      s' = s.strEchoRead n) ∨
    ∃ n all, call = .serverWrite n ∧ s.serverAt = .write all ∧ n ≤ all ∧
      s' = s.strEchoWrite n := by
  cases call with
  | clientWrite n =>
    rw [echoStep] at h
    split_ifs at h with hcond
    exact Or.inl ⟨n, rfl, hcond.1, (Option.some.inj h).symm⟩
  | clientRead n =>
    rw [echoStep] at h
    split_ifs at h with hcond
    exact Or.inr (Or.inl ⟨n, rfl, hcond.1, hcond.2.trans (min_le_right _ _),
      (Option.some.inj h).symm⟩)
  | serverRead n =>
    rw [echoStep] at h
    split_ifs at h with hcond
    exact Or.inr (Or.inr (Or.inl ⟨n, rfl, hcond.1, hcond.2.trans (min_le_right _ _),
      (Option.some.inj h).symm⟩))
  | serverWrite n =>
    rw [echoStep] at h
    cases hat : s.serverAt with
    | read =>
      rw [hat] at h
      cases h
    | left =>
      rw [hat] at h
      cases h
    | write all =>
      simp only [hat] at h
      split_ifs at h with hn
      exact Or.inr (Or.inr (Or.inr ⟨n, all, rfl, rfl, hn, (Option.some.inj h).symm⟩))

/-! ### The bytes on their way -/

theorem takeCmdWrite_transit (hnothing : s.transit = []) (n : ℕ) :
    (s.takeCmdWrite p n).transit = [] ∨ (s.takeCmdWrite p n).transit = p.take n := by
  rw [Echo.takeCmdWrite]
  split_ifs with hn
  · exact Or.inl hnothing
  · refine Or.inr ?_
    change s.received ++ s.toClient ++ s.inServer ++ (s.toServer ++ p.take n) = p.take n
    rw [← List.append_assoc]
    change s.transit ++ p.take n = p.take n
    rw [hnothing, List.nil_append]

theorem takeCmdRead_transit (hunread : s.received = []) (n : ℕ) :
    (s.takeCmdRead n).transit = s.transit := by
  rw [Echo.takeCmdRead]
  split_ifs with hn
  · rfl
  · change s.toClient.take n ++ s.toClient.drop n ++ s.inServer ++ s.toServer = _
    rw [List.take_append_drop, Echo.transit, hunread, List.nil_append]

theorem strEchoRead_transit (hat : s.serverAt = .read) {n : ℕ} (hn : n ≤ s.toServer.length) :
    (s.strEchoRead n).transit = s.transit := by
  have hnone : s.inServer = [] := by rw [Echo.inServer, hat]
  rw [Echo.strEchoRead, Echo.transit, Echo.transit, hnone]
  split_ifs with hzero
  · rfl
  · change s.received ++ s.toClient ++ (s.toServer.take n ++ s.buf.drop n).take n ++
      s.toServer.drop n = _
    rw [List.take_append_of_le_length (by rw [List.length_take_of_le hn]), List.take_take,
      min_self, List.append_assoc, List.take_append_drop, List.append_nil]

/-- A short write loses the bytes that it did not move. -/
theorem strEchoWrite_transit {all n : ℕ} (hat : s.serverAt = .write all) (hn : n ≤ all) :
    (s.strEchoWrite n).transit.Sublist s.transit ∧
      (n = all → (s.strEchoWrite n).transit = s.transit) := by
  have hold : s.transit = s.received ++ s.toClient ++ s.buf.take all ++ s.toServer := by
    rw [Echo.transit, Echo.inServer, hat]
  have hnew : (s.strEchoWrite n).transit =
      s.received ++ s.toClient ++ s.buf.take n ++ s.toServer := by
    change s.received ++ (s.toClient ++ s.buf.take n) ++ [] ++ s.toServer = _
    rw [List.append_nil, ← List.append_assoc s.received]
  rw [hold, hnew]
  constructor
  · apply List.Sublist.append_right
    apply List.Sublist.append_left
    exact (List.take_prefix_take_left hn).sublist
  · rintro rfl
    rfl

/-! ### The buffer of the server -/

theorem takeCmdWrite_server (n : ℕ) :
    (s.takeCmdWrite p n).buf = s.buf ∧ (s.takeCmdWrite p n).serverPrints = s.serverPrints ∧
      (s.takeCmdWrite p n).received = s.received ∧
      (s.takeCmdWrite p n).clientPrint = s.clientPrint := by
  rw [Echo.takeCmdWrite]
  split_ifs
  all_goals exact ⟨rfl, rfl, rfl, rfl⟩

theorem takeCmdRead_server (n : ℕ) :
    (s.takeCmdRead n).buf = s.buf ∧ (s.takeCmdRead n).serverPrints = s.serverPrints := by
  rw [Echo.takeCmdRead]
  split_ifs
  all_goals exact ⟨rfl, rfl⟩

theorem strEchoRead_client (n : ℕ) :
    (s.strEchoRead n).clientAt = s.clientAt ∧ (s.strEchoRead n).received = s.received ∧
      (s.strEchoRead n).clientPrint = s.clientPrint := by
  rw [Echo.strEchoRead]
  split_ifs
  all_goals exact ⟨rfl, rfl, rfl⟩

/-- The server reads no more than the client's data, and its buffer stays clear behind that. -/
theorem Echo.Kept.strEchoRead_clear (h : s.Kept p) {n : ℕ} (hn : n ≤ s.toServer.length) :
    (s.strEchoRead n).buf.drop p.length = List.replicate (lineLenMax - p.length) 0 ∧
      (p.length < lineLenMax → none ∉ (s.strEchoRead n).serverPrints) := by
  have hle : n ≤ p.length := by
    have hlength := h.sublist.length_le
    rw [Echo.transit, List.length_append] at hlength
    omega
  have hclear : (s.toServer.take n ++ s.buf.drop n).drop p.length =
      List.replicate (lineLenMax - p.length) 0 := by
    rw [List.drop_append, List.length_take_of_le hn, List.drop_drop,
      List.drop_eq_nil_of_le (by rwa [List.length_take_of_le hn]), List.nil_append,
      Nat.add_sub_cancel' hle]
    exact h.clear
  rw [Echo.strEchoRead]
  split_ifs
  · exact ⟨h.clear, h.prints⟩
  · refine ⟨hclear, ?_⟩
    intro hfits
    have hzero : 0 ∈ s.toServer.take n ++ s.buf.drop n := by
      apply List.mem_of_mem_drop (i := p.length)
      rw [hclear, List.mem_replicate]
      exact ⟨by omega, rfl⟩
    apply List.not_mem_cons_of_ne_of_not_mem _ (h.prints hfits)
    rw [CString.ofBuffer, if_pos hzero]
    exact (Option.some_ne_none _).symm

theorem start_kept (p lineOut : List UInt8) : (Echo.start lineOut).Kept p where
  nothing _ := rfl
  unread _ := rfl
  sublist := List.nil_sublist p
  clear := List.drop_replicate
  prints _ := List.not_mem_nil
  shown _ h := absurd h.symm (Option.some_ne_none _)

theorem Echo.Kept.step (h : s.Kept p) (hs' : echoStep p s call = some s') : s'.Kept p := by
  rcases echoStep_cases hs' with ⟨n, -, hat, rfl⟩ | ⟨n, -, hat, -, rfl⟩ | ⟨n, -, hat, hn, rfl⟩ |
    ⟨n, all, -, hat, hn, rfl⟩
  · obtain ⟨hbuf, hprints, hreceived, hprint⟩ := takeCmdWrite_server (p := p) (s := s) n
    have hno : (s.takeCmdWrite p n).clientAt ≠ .write := by
      rw [Echo.takeCmdWrite]
      split_ifs <;> exact ClientAt.noConfusion
    refine ⟨fun hw => absurd hw hno, fun _ => hreceived.trans (h.unread (Or.inl hat)), ?_,
      hbuf ▸ h.clear, hprints ▸ h.prints, ?_⟩
    · rcases takeCmdWrite_transit (p := p) (h.nothing hat) n with hnil | htake
      · exact hnil ▸ List.nil_sublist p
      · exact htake ▸ List.take_sublist n p
    · rw [hprint, hreceived]
      exact h.shown
  · obtain ⟨hbuf, hprints⟩ := takeCmdRead_server (s := s) n
    have htransit := takeCmdRead_transit (h.unread (Or.inr hat)) n
    have hover : (s.takeCmdRead n).clientAt ≠ .write ∧ (s.takeCmdRead n).clientAt ≠ .read := by
      rw [Echo.takeCmdRead]
      split_ifs <;> exact ⟨ClientAt.noConfusion, ClientAt.noConfusion⟩
    refine ⟨fun hw => absurd hw hover.1, fun hw => absurd hw (not_or.mpr hover),
      htransit ▸ h.sublist, hbuf ▸ h.clear, hprints ▸ h.prints, ?_⟩
    rw [Echo.takeCmdRead]
    split_ifs
    · exact h.shown
    · rintro text ⟨⟩
      exact ⟨s.lineOut.drop n, rfl⟩
  · obtain ⟨hclient, hreceived, hprint⟩ := strEchoRead_client (s := s) n
    have htransit := strEchoRead_transit hat hn
    obtain ⟨hclear, hprints⟩ := h.strEchoRead_clear hn
    refine ⟨?_, ?_, htransit ▸ h.sublist, hclear, hprints, ?_⟩
    · rw [hclient, htransit]
      exact h.nothing
    · rw [hclient, hreceived]
      exact h.unread
    · rw [hprint, hreceived]
      exact h.shown
  · have htransit := (strEchoWrite_transit hat hn).1
    refine ⟨?_, h.unread, htransit.trans h.sublist, h.clear, h.prints, h.shown⟩
    intro hwrite
    rw [h.nothing hwrite] at htransit
    exact List.sublist_nil.mp htransit

/-- With complete writes no byte is lost. -/
theorem Echo.Kept.prefix_step (h : s.Kept p) (hfront : s.transit <+: p)
    (hcomplete : s.Complete call) (hs' : echoStep p s call = some s') : s'.transit <+: p := by
  rcases echoStep_cases hs' with ⟨n, -, hat, rfl⟩ | ⟨n, -, hat, -, rfl⟩ | ⟨n, -, hat, hn, rfl⟩ |
    ⟨n, all, rfl, hat, hn, rfl⟩
  · rcases takeCmdWrite_transit (p := p) (h.nothing hat) n with hnil | htake
    · exact hnil ▸ List.nil_prefix
    · exact htake ▸ List.take_prefix n p
  · rwa [takeCmdRead_transit (h.unread (Or.inr hat)) n]
  · rwa [strEchoRead_transit hat hn]
  · have hall : n = all := by
      rw [Echo.Complete, hat] at hcomplete
      exact (ServerAt.write.inj hcomplete).symm
    rwa [(strEchoWrite_transit hat hn).2 hall]

end Step

/-! ### What the client prints -/

theorem ofField_append {bytes : List UInt8} (h : 0 ∈ bytes) (rest : List UInt8) :
    CString.ofField (bytes ++ rest) = CString.ofField bytes := by
  apply CString.ext
  change (bytes ++ rest).takeWhile (fun b => b ≠ 0) = bytes.takeWhile (fun b => b ≠ 0)
  induction bytes with
  | nil => cases h
  | cons b bytes ih =>
    rw [List.cons_append, List.takeWhile_cons, List.takeWhile_cons]
    split_ifs with hb
    · have hne : b ≠ 0 := of_decide_eq_true hb
      rw [ih ((List.mem_cons.mp h).resolve_left hne.symm)]
    · rfl

/-- Over every run of the two programs, with calls that move as many bytes as they like: what
the client has read is its data with bytes left out at most, and the server prints no byte
behind its buffer if the data is shorter than that. If its writes are complete, the client has
read the first bytes of its data, and it prints the text in it once the terminator is among
them. -/
theorem echo_run (p lineOut : List UInt8) (steps : List EchoStep) (s : Echo)
    (hrun : runFrom (echoStep p) (Echo.start lineOut) steps = some s) :
    s.received.Sublist p ∧ (p.length < lineLenMax → none ∉ s.serverPrints) ∧
      (Along (echoStep p) Echo.Complete (Echo.start lineOut) steps → s.received <+: p ∧
        ∀ text, s.clientPrint = some text → 0 ∈ s.received → text = some (CString.ofField p)) := by
  have hkept := runFrom_invariant_of_step (fun _ _ _ h hs' => Echo.Kept.step h hs')
    (start_kept p lineOut) hrun
  have hreceived : s.received <+: s.transit := by
    rw [Echo.transit, List.append_assoc, List.append_assoc]
    exact List.prefix_append _ _
  refine ⟨hreceived.sublist.trans hkept.sublist, hkept.prints, ?_⟩
  intro hcomplete
  have hboth : s.Kept p ∧ s.transit <+: p := by
    apply runFrom_invariant _ ⟨start_kept p lineOut, List.nil_prefix⟩ hcomplete hrun
    intro s step s' h hstep hs'
    exact ⟨h.1.step hs', h.1.prefix_step h.2 hstep hs'⟩
  have hfront := hreceived.trans hboth.2
  refine ⟨hfront, ?_⟩
  intro text htext hzero
  obtain ⟨rest, rfl⟩ := hkept.shown text htext
  obtain ⟨tail, rfl⟩ := hfront
  rw [CString.ofBuffer, if_pos (List.mem_append_left rest hzero), ofField_append hzero,
    ofField_append hzero]

/-- The server reads the data in two parts; the client gets both with one read. -/
theorem echo_run_example :
    ∃ s, runFrom (echoStep [72, 105, 0, 7]) (Echo.start (List.replicate 80 255))
        [.clientWrite 4, .serverRead 1, .serverWrite 1, .serverRead 3, .serverWrite 3,
          .clientRead 4] = some s ∧
      s.received = [72, 105, 0, 7] ∧ s.received <+: [72, 105, 0, 7] ∧ none ∉ s.serverPrints := by
  have hcomplete : Along (echoStep [72, 105, 0, 7]) Echo.Complete
      (Echo.start (List.replicate 80 255))
      [.clientWrite 4, .serverRead 1, .serverWrite 1, .serverRead 3, .serverWrite 3,
        .clientRead 4] := by decide
  obtain ⟨-, hprints, hechoed⟩ := echo_run [72, 105, 0, 7] (List.replicate 80 255)
    [.clientWrite 4, .serverRead 1, .serverWrite 1, .serverRead 3, .serverWrite 3,
      .clientRead 4] _ rfl
  exact ⟨_, rfl, rfl, (hechoed hcomplete).1, hprints (by decide)⟩

end MorningProjects.Chatty
