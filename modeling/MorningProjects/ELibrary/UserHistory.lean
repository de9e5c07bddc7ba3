import MorningProjects.ELibrary.BookHistory

/-!
# The history of a user

`getUserActy` finds the wows and the buys of a user by a word in the text of the entries,
and links their copies behind a pointer that is NULL until the first copy. It does what it
should when the caller's list was empty, the word is in no other text, and there is memory
for the copies.
-/
namespace MorningProjects.ELibrary
open Library

structure ActyCall where
  host : ℕ
  filter : ActyFilter
  name : CString
  input : MarkInput

def actyStep (s : ActyServer) (c : ActyCall) : ActyServer :=
  (addUserActy s c.host c.filter c.name c.input).2

/-- A server on which no activity was recorded yet. -/
def ActyServer.unused (server : Server) : ActyServer := ⟨server, fun _ => [], fun _ => 0⟩

def actyRun (server : Server) (calls : List ActyCall) : ActyServer :=
  calls.foldl actyStep (.unused server)

/-! ### The search -/

/-- What `*activities` points to: nothing, a list from before the call, the user's own list, or
copies at the given addresses. -/
inductive ActyRef where
  | null
  | held
  | own
  | copies (node : ℕ × Acty) (nodes : List (ℕ × Acty))

/-- The loop of `getUserActy`: the outputs, whether `p` is a node, the copies made so far. -/
structure UserActyLoop where
  activities : ActyRef
  p : Bool
  counter : UInt32
  copied : ℕ

/-- A copy becomes the first node, or is linked behind `p`; no result when `p` is NULL. -/
def UserActyLoop.link (node : ℕ × Acty) (l : UserActyLoop) : Option UserActyLoop :=
  match l.activities, l.p with
  | .null, _ => some ⟨.copies node [], true, l.counter + 1, l.copied + 1⟩
  | .copies first nodes, true =>
    some ⟨.copies first (nodes ++ [node]), true, l.counter + 1, l.copied + 1⟩
  | _, _ => none

/-- The loop over the entries; `malloc k` is the answer after `k` copies. -/
def userActyLoop (str : CString) (malloc : ℕ → Option ℕ) :
    List Acty → UserActyLoop → Option (SystemStatus × UserActyLoop)
  | [], l => some (.ok, l)
  | current :: rest, l =>
    if current.acty.Contains str then
      match malloc l.copied with
      | none => some (.fail, l)
      | some a => (l.link (a, current)).bind (userActyLoop str malloc rest)
    else userActyLoop str malloc rest l

structure UserActyResult where
  result : SystemStatus
  numActy : UInt32
  activities : ActyRef

/-- `getUserActy`, with what the outputs held before. -/
def getUserActy (s : ActyServer) (host : ℕ) (filter : HistoryFilter) (malloc : ℕ → Option ℕ)
    (numActy : UInt32) (activities : ActyRef) : Option UserActyResult :=
  let copying (str : CString) : Option UserActyResult :=
    (userActyLoop str malloc (s.activity host) ⟨activities, false, 0, 0⟩).map fun (result, l) =>
      ⟨result, l.counter, l.activities⟩
  match filter with
  | .all => some ⟨.ok, s.numActy host, .own⟩
  | .of .byWow => copying ActyText.wow
  | .of .byBuy => copying ActyText.buy
  | .of _ => some ⟨.ok, numActy, activities⟩

/-! ### What has to hold -/

def recorded (host : ℕ) (calls : List ActyCall) : List ActyCall :=
  calls.filter fun c => c.host = host ∧ c.input.acty

def ActyCall.entry (username : CString) (c : ActyCall) : Acty :=
  ⟨actyText c.filter c.input.timeText username c.name, c.input.time⟩

/-- A list of copies in memory that was asked for during the call. -/
def ActyRef.IsFresh (malloc : ℕ → Option ℕ) (entries : List Acty) : ActyRef → Prop
  | .null => entries = []
  | .copies node nodes => (node :: nodes).map Prod.snd = entries ∧
      ∀ k < (node :: nodes).length, malloc k = ((node :: nodes).map Prod.fst)[k]?
  | .held | .own => False

def CopiesMeet (malloc : ℕ → Option ℕ) (entries : List Acty) (r : Option UserActyResult) : Prop :=
  ∃ numActy activities, r = some ⟨.ok, numActy, activities⟩ ∧
    activities.IsFresh malloc entries ∧ numActy.toNat = entries.length

def WholeMeets (own entries : List Acty) (r : Option UserActyResult) : Prop :=
  own = entries ∧ ∃ numActy, r = some ⟨.ok, numActy, .own⟩ ∧ numActy.toNat = entries.length

/-! ### The history -/

section History

variable {server : Server} {calls : List ActyCall} {host : ℕ}

theorem actyRun_concat (c : ActyCall) :
    actyRun server (calls ++ [c]) = actyStep (actyRun server calls) c := by
  rw [actyRun, List.foldl_append]
  rfl

theorem actyStep_server (s : ActyServer) (c : ActyCall) : (actyStep s c).server = s.server := by
  rw [actyStep, addUserActy]
  split_ifs <;> rfl

theorem actyRun_server : (actyRun server calls).server = server := by
  induction calls using List.reverseRecOn with
  | nil => rfl
  | append_singleton calls c ih => rw [actyRun_concat, actyStep_server, ih]

theorem actyStep_history (s : ActyServer) (c : ActyCall) (host : ℕ) :
    (actyStep s c).activity host = s.activity host ++
        (recorded host [c]).map (·.entry (s.server.user host).username) ∧
      (actyStep s c).numActy host = s.numActy host + UInt32.ofNat (recorded host [c]).length := by
  rw [actyStep, addUserActy, recorded]
  by_cases hacty : c.input.acty = true
  · rw [if_pos hacty]
    dsimp only
    by_cases hhost : c.host = host
    · subst hhost
      rw [Function.update_self, Function.update_self, List.filter_singleton]
      simp [hacty, ActyCall.entry]
    · rw [Function.update_of_ne (Ne.symm hhost), Function.update_of_ne (Ne.symm hhost),
        List.filter_singleton]
      simp [hhost]
  · rw [if_neg hacty, List.filter_singleton]
    simp [hacty]

theorem actyRun_history (server : Server) (calls : List ActyCall) (host : ℕ) :
    (actyRun server calls).activity host =
        (recorded host calls).map (·.entry (server.user host).username) ∧
      (actyRun server calls).numActy host = UInt32.ofNat (recorded host calls).length := by
  induction calls using List.reverseRecOn with
  | nil => exact ⟨rfl, rfl⟩
  | append_singleton calls c ih =>
    obtain ⟨hactivity, hnum⟩ := actyStep_history (actyRun server calls) c host
    have hsplit : recorded host (calls ++ [c]) = recorded host calls ++ recorded host [c] :=
      List.filter_append ..
    rw [actyRun_concat, hactivity, hnum, ih.1, ih.2, actyRun_server, hsplit, List.map_append,
      List.length_append, UInt32.ofNat_add]
    exact ⟨rfl, rfl⟩

end History

/-! ### The copies -/

def found (str : CString) (entries : List Acty) : List Acty := entries.filter (·.acty.Contains str)

section Copies

variable {str : CString} {malloc : ℕ → Option ℕ} {entries entries' : List Acty}

theorem userActyLoop_held {activities : ActyRef} (hheld : activities ≠ .null)
    {r : SystemStatus × UserActyLoop}
    (hr : userActyLoop str malloc entries ⟨activities, false, 0, 0⟩ = some r) :
    r.2 = ⟨activities, false, 0, 0⟩ := by
  induction entries with
  | nil =>
    cases hr
    rfl
  | cons current rest ih =>
    rw [userActyLoop] at hr
    split_ifs at hr with hfound
    · cases hmem : malloc 0 with
      | none =>
        simp only [hmem] at hr
        cases hr
        rfl
      | some a =>
        simp only [hmem] at hr
        cases activities with
        | null => exact absurd rfl hheld
        | held => cases hr
        | own => cases hr
        | copies node nodes => cases hr
    · exact ih hr

/-- With a first copy made the others are linked behind it, as far as there is memory. -/
theorem userActyLoop_copies (str : CString) (malloc : ℕ → Option ℕ) (entries : List Acty)
    (first : ℕ × Acty) (nodes : List (ℕ × Acty)) (counter : UInt32) (copied : ℕ) :
    (∃ addresses : List ℕ, addresses.length = (found str entries).length ∧
      (∀ k < addresses.length, malloc (copied + k) = addresses[k]?) ∧
      userActyLoop str malloc entries ⟨.copies first nodes, true, counter, copied⟩ =
        some (.ok, ⟨.copies first (nodes ++ addresses.zip (found str entries)), true,
          counter + UInt32.ofNat addresses.length, copied + addresses.length⟩)) ∨
    (∃ k < (found str entries).length, malloc (copied + k) = none) ∧
      ∃ l, userActyLoop str malloc entries ⟨.copies first nodes, true, counter, copied⟩ =
        some (.fail, l) := by
  induction entries generalizing nodes counter copied with
  | nil => exact Or.inl ⟨[], rfl, fun k hk => absurd hk (Nat.not_lt_zero k), by simp [userActyLoop]⟩
  | cons current rest ih =>
    rw [userActyLoop]
    by_cases hfound : current.acty.Contains str
    · have hcons : found str (current :: rest) = current :: found str rest :=
        List.filter_cons_of_pos (decide_eq_true hfound)
      rw [if_pos hfound, hcons]
      cases hmem : malloc copied with
      | none =>
        exact Or.inr ⟨⟨0, Nat.zero_lt_succ _, hmem⟩, _, rfl⟩
      | some a =>
        dsimp only [UserActyLoop.link, Option.bind_some]
        rcases ih (nodes ++ [(a, current)]) (counter + 1) (copied + 1) with
          ⟨addresses, hlength, hmalloc, hloop⟩ | ⟨⟨k, hk, hnone⟩, hfail⟩
        · refine Or.inl ⟨a :: addresses, ?_, ?_, ?_⟩
          · rw [List.length_cons, List.length_cons, hlength]
          · intro k hk
            cases k with
            | zero => exact hmem
            | succ k =>
              rw [List.getElem?_cons_succ, ← hmalloc k (Nat.lt_of_succ_lt_succ hk)]
              congr 1
              omega
          · rw [hloop, List.zip_cons_cons, List.append_assoc, List.singleton_append,
              List.length_cons, UInt32.ofNat_add, Nat.add_assoc, Nat.add_comm 1, UInt32.add_assoc,
              UInt32.add_comm 1]
            rfl
        · refine Or.inr ⟨⟨k + 1, Nat.succ_lt_succ hk, ?_⟩, hfail⟩
          rw [← hnone]
          congr 1
          omega
    · have hskip : found str (current :: rest) = found str rest :=
        List.filter_cons_of_neg (by simpa using hfound)
      rw [if_neg hfound, hskip]
      exact ih nodes counter copied

/-- The list of the given copies. -/
def ActyRef.ofNodes : List (ℕ × Acty) → ActyRef
  | [] => .null
  | node :: nodes => .copies node nodes

/-- From an empty list on everything found is copied, as far as there is memory. -/
theorem userActyLoop_null (str : CString) (malloc : ℕ → Option ℕ) (entries : List Acty) :
    (∃ addresses : List ℕ, addresses.length = (found str entries).length ∧
      (∀ k < addresses.length, malloc k = addresses[k]?) ∧
      ∃ p, userActyLoop str malloc entries ⟨.null, false, 0, 0⟩ =
        some (.ok, ⟨.ofNodes (addresses.zip (found str entries)), p,
          UInt32.ofNat addresses.length, addresses.length⟩)) ∨
    (∃ k < (found str entries).length, malloc k = none) ∧
      ∃ l, userActyLoop str malloc entries ⟨.null, false, 0, 0⟩ = some (.fail, l) := by
  induction entries with
  | nil => exact Or.inl ⟨[], rfl, fun k hk => absurd hk (Nat.not_lt_zero k), _, rfl⟩
  | cons current rest ih =>
    rw [userActyLoop]
    by_cases hfound : current.acty.Contains str
    · have hcons : found str (current :: rest) = current :: found str rest :=
        List.filter_cons_of_pos (decide_eq_true hfound)
      rw [if_pos hfound, hcons]
      cases hmem : malloc 0 with
      | none => exact Or.inr ⟨⟨0, Nat.zero_lt_succ _, hmem⟩, _, rfl⟩
      | some a =>
        dsimp only [UserActyLoop.link, Option.bind_some]
        rcases userActyLoop_copies str malloc rest (a, current) [] 1 1 with
          ⟨addresses, hlength, hmalloc, hloop⟩ | ⟨⟨k, hk, hnone⟩, hfail⟩
        · refine Or.inl ⟨a :: addresses, by rw [List.length_cons, List.length_cons, hlength], ?_,
            true, ?_⟩
          · intro k hk
            cases k with
            | zero => exact hmem
            | succ k =>
              rw [List.getElem?_cons_succ, ← hmalloc k (Nat.lt_of_succ_lt_succ hk), Nat.add_comm]
          · refine hloop.trans ?_
            rw [List.zip_cons_cons, List.length_cons, UInt32.ofNat_add,
              UInt32.add_comm (UInt32.ofNat _), Nat.add_comm addresses.length]
            rfl
        · exact Or.inr ⟨⟨k + 1, Nat.succ_lt_succ hk, by rw [← hnone, Nat.add_comm]⟩, hfail⟩
    · have hskip : found str (current :: rest) = found str rest :=
        List.filter_cons_of_neg (by simpa using hfound)
      rw [if_neg hfound, hskip]
      exact ih

theorem isFresh_ofNodes {nodes : List (ℕ × Acty)} :
    (ActyRef.ofNodes nodes).IsFresh malloc entries ↔ nodes.map Prod.snd = entries ∧
      ∀ k < nodes.length, malloc k = (nodes.map Prod.fst)[k]? := by
  cases nodes with
  | nil =>
    constructor
    · intro h
      exact ⟨(show entries = [] from h).symm, fun k hk => absurd hk (Nat.not_lt_zero k)⟩
    · exact fun h => h.1.symm
  | cons node nodes => exact Iff.rfl

theorem not_copiesMeet_of_held {activities : ActyRef} (hheld : activities ≠ .null) :
    ¬ CopiesMeet malloc entries ((userActyLoop str malloc entries' ⟨activities, false, 0, 0⟩).map
      fun (result, l) => ⟨result, l.counter, l.activities⟩) := by
  rintro ⟨numActy, activities', hr, hfresh, hnum⟩
  obtain ⟨⟨result, l⟩, hloop, hr⟩ := Option.map_eq_some_iff.mp hr
  obtain rfl : l = ⟨activities, false, 0, 0⟩ := userActyLoop_held hheld hloop
  cases hr
  have hnone : entries = [] := List.eq_nil_of_length_eq_zero hnum.symm
  cases activities with
  | null => exact hheld rfl
  | held => exact hfresh
  | own => exact hfresh
  | copies node nodes =>
    have hlist := hfresh.1
    rw [hnone] at hlist
    cases hlist

end Copies

/-- Filters that see no more than a map does, and let the same images through, are the same. -/
theorem filters_agree {α β : Type*} {p q : α → Bool} {f : α → β} {l : List α}
    (hp : ∀ a b, f a = f b → p a = p b) (h : (l.filter p).map f = (l.filter q).map f) :
    ∀ a ∈ l, p a = q a := by
  have hqp : ∀ a ∈ l.filter q, p a = true := by
    intro a ha
    have hmem : f a ∈ (l.filter p).map f := by
      rw [h]
      exact List.mem_map_of_mem ha
    obtain ⟨b, hb, hfb⟩ := List.mem_map.mp hmem
    rw [← hp b a hfb]
    exact (List.mem_filter.mp hb).2
  have hboth : (l.filter p).filter q = l.filter q := by
    rw [List.filter_filter]
    apply List.filter_congr
    intro a ha
    cases hq : q a with
    | true => rw [hqp a (List.mem_filter.mpr ⟨ha, hq⟩), Bool.and_self]
    | false => rw [Bool.false_and]
  have hlength : ((l.filter p).filter q).length = (l.filter p).length := by
    rw [hboth, ← List.length_map f, ← h, List.length_map]
  rw [List.length_filter_eq_length_iff] at hlength
  intro a ha
  cases hpa : p a with
  | true => exact (hlength a (List.mem_filter.mpr ⟨ha, hpa⟩)).symm
  | false =>
    by_contra hqa
    have hqa : q a = true := by simpa using (Ne.symm hqa)
    rw [hqp a (List.mem_filter.mpr ⟨ha, hqa⟩)] at hpa
    cases hpa

/-! ### The wows and the buys -/

/-- The calls of `addUserActy` that `wowBook` or `buyBook` made for a user. -/
def markedCalls (m : Mark) (host : ℕ) (calls : List ActyCall) : List ActyCall :=
  (recorded host calls).filter (·.filter = m.filter)

section Marks

variable {server : Server} {calls : List ActyCall} {host : ℕ} {malloc : ℕ → Option ℕ} {m : Mark}

theorem getUserActy_mark (s : ActyServer) (numActy : UInt32) (activities : ActyRef) :
    getUserActy s host (.of m.filter) malloc numActy activities =
      (userActyLoop m.act malloc (s.activity host) ⟨activities, false, 0, 0⟩).map
        fun (result, l) => ⟨result, l.counter, l.activities⟩ := by
  cases m <;> rfl

theorem found_history (username : CString) :
    found m.act ((recorded host calls).map (·.entry username)) =
      ((recorded host calls).filter fun c => (c.entry username).acty.Contains m.act).map
        (·.entry username) := by
  rw [found, List.filter_map]
  rfl

/-- The search finds exactly the entries of a kind when the word is in no other text. -/
theorem found_eq_iff (username : CString) :
    found m.act ((recorded host calls).map (·.entry username)) =
        (markedCalls m host calls).map (·.entry username) ↔
      ∀ c ∈ recorded host calls, (c.entry username).acty.Contains m.act ↔ c.filter = m.filter := by
  rw [found_history, markedCalls]
  constructor
  · intro h c hc
    have hsame := filters_agree (fun a b hab => by rw [hab]) h c hc
    exact decide_eq_decide.mp hsame
  · intro h
    congr 1
    apply List.filter_congr
    intro c hc
    exact decide_eq_decide.mpr (h c hc)

/-- The copies are what they should be exactly from an empty list, with the word in the right
texts only, memory for every copy and no more of them than the counter can tell. -/
theorem copiesMeet_iff (server : Server) (calls : List ActyCall) (host : ℕ)
    (malloc : ℕ → Option ℕ) (m : Mark) (numActy : UInt32) (activities : ActyRef) :
    CopiesMeet malloc ((markedCalls m host calls).map (·.entry (server.user host).username))
        (getUserActy (actyRun server calls) host (.of m.filter) malloc numActy activities) ↔
      activities = .null ∧
        (∀ c ∈ recorded host calls,
          (c.entry (server.user host).username).acty.Contains m.act ↔ c.filter = m.filter) ∧
        (∀ k < (markedCalls m host calls).length, malloc k ≠ none) ∧
        (markedCalls m host calls).length < 2 ^ 32 := by
  rw [getUserActy_mark, (actyRun_history server calls host).1]
  rw [← found_eq_iff]
  by_cases hheld : activities = .null
  · subst hheld
    obtain ⟨addresses, hlength, hmalloc, p, hloop⟩ | ⟨⟨k, hk, hnone⟩, l, hloop⟩ :=
      userActyLoop_null m.act malloc
        ((recorded host calls).map (·.entry (server.user host).username))
    · rw [hloop, Option.map_some]
      dsimp only
      constructor
      · rintro ⟨numActy', activities', hr, hfresh, hnum⟩
        cases hr
        rw [isFresh_ofNodes, List.map_snd_zip hlength.ge] at hfresh
        have hcount := congrArg List.length hfresh.1
        rw [List.length_map, ← hlength] at hcount
        rw [List.length_map, ← hcount, UInt32.toNat_ofNat'] at hnum
        refine ⟨rfl, hfresh.1, fun k hk => ?_, ?_⟩
        · rw [hmalloc k (by omega), List.getElem?_eq_getElem (by omega)]
          exact Option.some_ne_none _
        · omega
      · rintro ⟨-, hfound, hmem, hroom⟩
        have hcount := congrArg List.length hfound
        rw [List.length_map, ← hlength] at hcount
        refine ⟨_, _, rfl, ?_, ?_⟩
        · rw [isFresh_ofNodes, List.map_snd_zip hlength.ge, List.map_fst_zip hlength.le,
            List.length_zip, hlength, min_self]
          exact ⟨hfound, fun k hk => hmalloc k (by omega)⟩
        · rw [List.length_map, ← hcount, UInt32.toNat_ofNat']
          omega
    · rw [hloop, Option.map_some]
      constructor
      · rintro ⟨numActy', activities', hr, -⟩
        cases hr
      · rintro ⟨-, hfound, hmem, -⟩
        rw [hfound, List.length_map] at hk
        exact absurd hnone (hmem k hk)
  · constructor
    · intro h
      exact absurd h (not_copiesMeet_of_held hheld)
    · exact fun h => absurd h.1 hheld

end Marks

/-- The condition of the search for a kind, and the one for the whole history. -/
theorem getUserActy_meets_iff (server : Server) (calls : List ActyCall) (host : ℕ)
    (malloc : ℕ → Option ℕ) (numActy : UInt32) (activities : ActyRef) :
    (∀ m : Mark,
      CopiesMeet malloc ((markedCalls m host calls).map (·.entry (server.user host).username))
        (getUserActy (actyRun server calls) host (.of m.filter) malloc numActy activities) ↔
      activities = .null ∧
        (∀ c ∈ recorded host calls,
          (c.entry (server.user host).username).acty.Contains m.act ↔ c.filter = m.filter) ∧
        (∀ k < (markedCalls m host calls).length, malloc k ≠ none) ∧
        (markedCalls m host calls).length < 2 ^ 32) ∧
    (WholeMeets ((actyRun server calls).activity host)
        ((recorded host calls).map (·.entry (server.user host).username))
        (getUserActy (actyRun server calls) host .all malloc numActy activities) ↔
      (recorded host calls).length < 2 ^ 32) := by
  refine ⟨fun m => copiesMeet_iff server calls host malloc m numActy activities, ?_⟩
  obtain ⟨hactivity, hnum⟩ := actyRun_history server calls host
  rw [WholeMeets, List.length_map]
  constructor
  · rintro ⟨-, numActy', hr, hcount⟩
    cases hr
    rw [hnum, UInt32.toNat_ofNat'] at hcount
    omega
  · intro hroom
    refine ⟨hactivity, _, rfl, ?_⟩
    rw [hnum, UInt32.toNat_ofNat']
    omega

def addingWow : ActyCall :=
  ⟨1, .addingBook, ActyText.wow, ⟨0, CString.empty, true, true⟩⟩

def wowingDune : ActyCall := ⟨1, .byWow, dune, ⟨0, CString.empty, true, true⟩⟩

/-- The added book is taken for a wow; and with a list from before there is no result. -/
theorem getUserActy_not_meets :
    ¬ CopiesMeet some ((markedCalls .wow 1 [addingWow]).map
        (·.entry (readers.server.user 1).username))
      (getUserActy (actyRun readers.server [addingWow]) 1 (.of .byWow) some 0 .null) ∧
    getUserActy (actyRun readers.server [wowingDune]) 1 (.of .byWow) some 0 .held = none := by
  constructor
  · intro h
    have hword := ((copiesMeet_iff readers.server [addingWow] 1 some .wow 0 .null).mp h).2.1
      addingWow List.mem_cons_self
    exact absurd (hword.mp (by decide)) (by decide)
  · decide

end MorningProjects.ELibrary
