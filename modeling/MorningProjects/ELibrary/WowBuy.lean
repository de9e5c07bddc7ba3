import MorningProjects.ELibrary.Mirror

/-!
# Wow and buy, up to the tag

From a directory and its mirror the two handlers go in step with an option, when they find as
much, and without a parameter. With the name of a book they look up different users.
-/
namespace MorningProjects.ELibrary
open Library

/-! ### Runs in step -/

structure Locals.Alike (s s' : SiteServer) (l l' : Locals) : Prop where
  activities : l.activities = [] ↔ l'.activities = []
  numActy : l.numActy = l'.numActy
  cmdValid : l.cmdValid = l'.cmdValid
  result : l.result = l'.result
  queryParsed : l.result ≠ .ok → l.queryParsed = false ∧ l'.queryParsed = false
  site : Follows s s' l.site l'.site

structure Answer.Alike (s s' : SiteServer) (a a' : Answer) : Prop where
  rtnMsg : Option.Rel Retagged a.rtnMsg a'.rtnMsg
  site : Follows s s' a.site a'.site

section Handlers

variable {env : Surroundings} {s s' : SiteServer} {l l' : Locals}

theorem briefActy_alike (malloc : Bool) (numActy : UInt32) {activities activities' : List Acty}
    (h : activities = [] ↔ activities' = []) :
    Brief.briefActy env.myAscTimeLite malloc numActy activities =
      Brief.briefActy env.myAscTimeLite malloc numActy activities' := by
  cases activities with
  | nil => rw [h.mp rfl]
  | cons x rest =>
    cases activities' with
    | nil => exact absurd (h.mpr rfl) (List.cons_ne_nil x rest)
    | cons y rest' =>
      rw [Brief.briefActy, Brief.briefActy]
      simp only [reduceCtorEq, or_false]
      rfl

theorem finish_alike (h : l.Alike s s' l') :
    Option.Rel (Answer.Alike s s') (l.finish env) (l'.finish env) := by
  rw [Locals.finish, Locals.finish, ← h.cmdValid, ← h.result, ← h.numActy,
    briefActy_alike _ _ h.activities]
  refine rel_map (R := Option.Rel Retagged) ?_ fun _ _ hmsg => ⟨hmsg, h.site⟩
  by_cases hvalid : l.cmdValid = false
  · rw [if_pos hvalid, if_pos hvalid]
    exact .some (rel_refl retagged_refl _)
  · rw [if_neg hvalid, if_neg hvalid]
    by_cases hresult : l.result = .ok
    · rw [if_pos hresult, if_pos hresult]
      exact .some (rel_refl retagged_refl _)
    · obtain ⟨hparsed, hparsed'⟩ := h.queryParsed hresult
      rw [if_neg hresult, if_neg hresult, if_pos hparsed, if_pos hparsed']
      exact rel_refl (rel_refl retagged_refl) _

end Handlers

/-! ### Copies of activities -/

inductive ActyRef.Alike : ActyRef → ActyRef → Prop
  | null : Alike .null .null
  | copies (node node' : ℕ × Acty) (nodes nodes' : List (ℕ × Acty)) :
      Alike (.copies node nodes) (.copies node' nodes')

theorem ActyRef.Alike.nodes {r r' : ActyRef} (h : r.Alike r') (own own' : List Acty) :
    r.nodes own = [] ↔ r'.nodes own' = [] := by
  cases h with
  | null => exact Iff.rfl
  | copies node node' nodes nodes' =>
    rw [ActyRef.nodes, ActyRef.nodes, List.map_cons, List.map_cons]
    exact iff_of_false (List.cons_ne_nil _ _) (List.cons_ne_nil _ _)

structure UserActyLoop.Alike (l l' : UserActyLoop) : Prop where
  activities : l.activities.Alike l'.activities
  p : l.p = l'.p
  counter : l.counter = l'.counter
  copied : l.copied = l'.copied

section Copies

variable {str str' : CString} {malloc : ℕ → Option ℕ} {entries entries' : List Acty}

theorem link_alike {l l' : UserActyLoop} (hl : l.Alike l') (node node' : ℕ × Acty) :
    Option.Rel UserActyLoop.Alike (l.link node) (l'.link node') := by
  obtain ⟨activities, p, counter, copied⟩ := l
  obtain ⟨activities', _, _, _⟩ := l'
  obtain ⟨hactivities, rfl, rfl, rfl⟩ := hl
  cases hactivities with
  | null => exact .some ⟨.copies .., rfl, rfl, rfl⟩
  | copies first first' nodes nodes' =>
    cases p with
    | false => exact .none
    | true => exact .some ⟨.copies .., rfl, rfl, rfl⟩

/-- The search does nothing for the entries it does not take. -/
theorem userActyLoop_found (l : UserActyLoop) :
    userActyLoop str malloc entries l = userActyLoop str malloc (found str entries) l := by
  induction entries generalizing l with
  | nil => rfl
  | cons current rest ih =>
    by_cases hfound : current.acty.Contains str
    · have hcons : found str (current :: rest) = current :: found str rest :=
        List.filter_cons_of_pos (decide_eq_true hfound)
      rw [hcons, userActyLoop, userActyLoop, if_pos hfound, if_pos hfound]
      cases malloc l.copied with
      | none => rfl
      | some a => exact congrArg (Option.bind _) (funext ih)
    · have hskip : found str (current :: rest) = found str rest :=
        List.filter_cons_of_neg (by simpa using hfound)
      rw [hskip, userActyLoop, if_neg hfound, ih]

theorem userActyLoop_alike
    (h : List.Forall₂ (fun x y => x.acty.Contains str ∧ y.acty.Contains str') entries entries')
    {l l' : UserActyLoop} (hl : l.Alike l') :
    Option.Rel (fun r r' => r.1 = r'.1 ∧ r.2.Alike r'.2)
      (userActyLoop str malloc entries l) (userActyLoop str' malloc entries' l') := by
  induction h generalizing l l' with
  | nil => exact .some ⟨rfl, hl⟩
  | @cons current current' rest rest' hfound _ ih =>
    rw [userActyLoop, userActyLoop, if_pos hfound.1, if_pos hfound.2, ← hl.copied]
    cases malloc l.copied with
    | none => exact .some ⟨rfl, hl⟩
    | some a => exact rel_bind (link_alike hl _ _) fun _ _ hlink => ih hlink

theorem htyLoop_counter (m m' : Mark) (entry entry' : NameDate → Acty) (records : List NameDate)
    {l l' : HtyLoop} (hcounter : l.counter = l'.counter)
    (hlength : l.entries.length = l'.entries.length) :
    (htyLoop (.of m.filter) entry malloc records l).counter =
      (htyLoop (.of m'.filter) entry' malloc records l').counter := by
  induction records generalizing l l' with
  | nil => exact hcounter
  | cons record records ih =>
    rw [htyLoop, htyLoop, hlength]
    cases malloc l'.entries.length with
    | none => exact hcounter
    | some a =>
      refine ih ?_ ?_
      · rw [HtyLoop.append, HtyLoop.append, hcounter]
      · simp only [HtyLoop.append, List.length_append, hlength, List.length_singleton]

end Copies

theorem getUserActy_alike (s s' : ActyServer) (user : ℕ) (malloc : ℕ → Option ℕ)
    (h : (found ActyText.wow (s.activity user)).length =
      (found ActyText.buy (s'.activity user)).length) :
    Option.Rel (fun r r' => r.result = r'.result ∧ r.numActy = r'.numActy ∧
        r.activities.Alike r'.activities)
      (getUserActy s user (.of .byWow) malloc 0 .null)
      (getUserActy s' user (.of .byBuy) malloc 0 .null) := by
  have hstart : UserActyLoop.Alike ⟨.null, false, 0, 0⟩ ⟨.null, false, 0, 0⟩ :=
    ⟨.null, rfl, rfl, rfl⟩
  have hmem : ∀ (str : CString) (entries : List Acty),
      ∀ x ∈ found str entries, x.acty.Contains str :=
    fun str entries x hx => of_decide_eq_true (List.mem_filter.mp hx).2
  have hfound : List.Forall₂
      (fun x y => x.acty.Contains ActyText.wow ∧ y.acty.Contains ActyText.buy)
      (found ActyText.wow (s.activity user)) (found ActyText.buy (s'.activity user)) :=
    List.forall₂_iff_zip.mpr ⟨h, fun hxy => ⟨hmem _ _ _ (List.of_mem_zip hxy).1,
      hmem _ _ _ (List.of_mem_zip hxy).2⟩⟩
  have hloop : Option.Rel (fun r r' => r.1 = r'.1 ∧ r.2.Alike r'.2) (userActyLoop _ malloc _ _)
      (userActyLoop _ malloc _ _) := userActyLoop_alike hfound hstart
  rw [← userActyLoop_found, ← userActyLoop_found] at hloop
  refine rel_map hloop ?_
  rintro ⟨result, l⟩ ⟨_, l'⟩ ⟨rfl, hl⟩
  exact ⟨rfl, hl.counter, hl.activities⟩

theorem getBookHty_alike (myAscTimeLite : ℕ → CString) (malloc : ℕ → Option ℕ) (info : BookInfo) :
    (getBookHty myAscTimeLite malloc info (.of Mark.wow.filter) 0 []).status =
        (getBookHty myAscTimeLite malloc info.mirror (.of Mark.buy.filter) 0 []).status ∧
      (getBookHty myAscTimeLite malloc info (.of Mark.wow.filter) 0 []).counter =
        (getBookHty myAscTimeLite malloc info.mirror (.of Mark.buy.filter) 0 []).counter ∧
      (getBookHty myAscTimeLite malloc info (.of Mark.wow.filter) 0 []).activities = [] ∧
      (getBookHty myAscTimeLite malloc info.mirror (.of Mark.buy.filter) 0 []).activities = [] := by
  have hcounter : (htyLoop (.of Mark.wow.filter) (htyEntry myAscTimeLite .wow info.name) malloc
        (Mark.wow.who info) .start).counter =
      (htyLoop (.of Mark.buy.filter) (htyEntry myAscTimeLite .buy info.mirror.name) malloc
        (Mark.buy.who info.mirror) .start).counter :=
    htyLoop_counter .wow .buy _ _ info.whoWowed rfl rfl
  have hnum : Mark.buy.num info.mirror = Mark.wow.num info := rfl
  rw [getBookHty_mark, getBookHty_mark]
  dsimp only
  rw [hnum, ← hcounter]
  split_ifs
  · exact ⟨rfl, rfl, rfl, rfl⟩
  · exact ⟨rfl, rfl, rfl, rfl⟩

theorem next_ne (i : UInt32) : (i + 1) % UInt32.ofNat maxSysActiesAmount ≠ i := by
  intro h
  have hnat := congrArg UInt32.toNat h
  have hone : (1 : UInt32).toNat = 1 := rfl
  have hamount : (UInt32.ofNat maxSysActiesAmount).toNat = 30 := rfl
  rw [UInt32.toNat_mod, UInt32.toNat_add, hone, hamount] at hnat
  have hi := i.toNat_lt
  omega

/-- A ring whose slots have their length is listed with memory, when there is a round for the slot
at the tail: the reply has room for that slot, and the next one is not at the tail. -/
theorem briefGlabalBookHty_isSome {lib : BookLibrary}
    (hslot : ∀ i, (lib.activities i).length = maxActyLength) (rounds : ℕ) (malloc : Bool)
    (filter : HistoryFilter) :
    (briefGlabalBookHty rounds malloc lib filter).isSome ↔
      malloc = true ∧ (lib.actyHeadOffset = lib.actyTailOffset → rounds ≠ 0) := by
  cases malloc with
  | false => exact iff_of_false Bool.false_ne_true fun h => Bool.false_ne_true h.1
  | true =>
    rw [briefGlabalBookHty, if_pos rfl, Option.isSome_map, eq_self, true_and]
    by_cases htail : lib.actyHeadOffset = lib.actyTailOffset
    · have hstart : lib.atTail (lib.actyHeadOffset, []) = true := decide_eq_true htail
      cases rounds with
      | zero =>
        rw [whileWithin, if_pos hstart]
        exact iff_of_false Bool.false_ne_true fun h => h htail rfl
      | succ rounds =>
        have hroom : (lib.text lib.actyHeadOffset.toNat).strlen < maxBriefLength := by
          have hshort := (List.takeWhile_prefix (fun b : UInt8 => decide (b ≠ 0))
            (l := lib.activities lib.actyHeadOffset.toNat)).length_le
          rw [hslot] at hshort
          exact hshort.trans_lt (by decide)
        obtain ⟨reply, hbody⟩ : ∃ reply, briefHtyBody lib filter (lib.actyHeadOffset, []) =
            some ((lib.actyHeadOffset + 1) % UInt32.ofNat maxSysActiesAmount, reply) := by
          rw [briefHtyBody]
          dsimp only
          rw [List.length_nil, zero_add, if_pos hroom]
          split_ifs
          · exact ⟨_, rfl⟩
          · exact ⟨_, rfl⟩
        have hstop : lib.atTail
            ((lib.actyHeadOffset + 1) % UInt32.ofNat maxSysActiesAmount, reply) = false := by
          rw [BookLibrary.atTail, decide_eq_false_iff_not, ← htail]
          exact next_ne lib.actyHeadOffset
        rw [whileWithin, if_pos hstart, hbody, Option.bind_some, whileWithin_of_not hstop]
        exact iff_of_true rfl fun _ => Nat.succ_ne_zero rounds
    · have hstop : lib.atTail (lib.actyHeadOffset, []) = false := decide_eq_false htail
      rw [whileWithin_of_not hstop]
      exact iff_of_true rfl fun h => absurd h htail

/-! ### The branches -/

section Branches

variable {env : Surroundings} {s s' : SiteServer} {c : Command}

theorem start_alike (h : Mirrored s s') : (Locals.start s).Alike s s' (.start s') :=
  ⟨Iff.rfl, rfl, rfl, rfl, fun hresult => absurd rfl hresult, follows_self h⟩

/-- A list that was found is put in a reply. -/
theorem listed_alike {l l' : Locals} (hl : l.Alike s s' l') {activities activities' : List Acty}
    (h : activities = [] ↔ activities' = []) (numActy : UInt32) :
    Traced.InStep (Locals.Alike s s')
      (if l.result = .ok then do
        let rtnMsg ← Traced.ofOption (ε := Lookup)
          (Brief.briefActy env.myAscTimeLite env.first numActy activities)
        return { l with rtnMsg := rtnMsg, queryParsed := true }
      else return l)
      (if l.result = .ok then do
        let rtnMsg ← Traced.ofOption (ε := Lookup)
          (Brief.briefActy env.myAscTimeLite env.first numActy activities')
        return { l' with rtnMsg := rtnMsg, queryParsed := true }
      else return l') := by
  rw [briefActy_alike _ _ h]
  split_ifs with hresult
  · refine Traced.inStep_bind_same _ fun rtnMsg _ => Traced.inStep_pure ?_
    exact { hl with queryParsed := fun hfail => absurd hresult hfail }
  · exact Traced.inStep_pure hl

theorem friendBody_alike (h : Mirrored s s')
    (hfound : ∀ name, c.params[0]? = some name → ∀ user,
      getUserInfo s.acties.server name none = some (some user) →
        (found ActyText.wow (s.acties.activity user)).length =
          (found ActyText.buy (s'.acties.activity user)).length) :
    Traced.InStep (Locals.Alike s s') (friendBody env s c .wow) (friendBody env s' c .buy) := by
  have hstart := start_alike h
  apply Traced.inStep_bind_same
  intro name hname
  rw [h.acties.server, lookUpUser_mirror]
  apply Traced.inStep_bind_same
  intro user huser
  cases user with
  | none =>
    exact Traced.inStep_pure { hstart with result := rfl, queryParsed := fun _ => ⟨rfl, rfl⟩ }
  | some user =>
    have hcount := hfound name hname user huser
    refine Traced.inStep_bind
      (Traced.inStep_ofOption (getUserActy_alike s.acties s'.acties user env.copies hcount)) ?_
    rintro ⟨result, numActy, refs⟩ ⟨_, _, refs'⟩ ⟨rfl, rfl, hrefs⟩
    have hacties := hrefs.nodes (s.acties.activity user) (s'.acties.activity user)
    refine listed_alike (l := { Locals.start s with
      result := result, numActy := numActy, activities := _ }) ?_ hacties numActy
    exact { hstart with
      activities := hacties, numActy := rfl, result := rfl, queryParsed := fun _ => ⟨rfl, rfl⟩ }

theorem bookBody_alike (h : Mirrored s s') :
    Traced.InStep (Locals.Alike s s') (bookBody env s c .wow) (bookBody env s' c .buy) := by
  have hstart := start_alike h
  apply Traced.inStep_bind_same
  intro name _
  rw [h.acties.server, getBookInfo_mirror]
  refine Traced.inStep_bind_same _ ?_
  rintro ⟨result, books⟩ -
  dsimp only
  split_ifs
  · have hinfo : Option.Rel (fun info info' => info' = BookInfo.mirror info)
        (books.bind s.acties.server.book) (books.bind s.acties.server.mirror.book) :=
      rel_bind (rel_refl (R := Eq) (fun _ => rfl) books) fun book _ hbook =>
        hbook ▸ rel_mirror s.acties.server book
    refine Traced.inStep_bind (Traced.inStep_ofOption hinfo) ?_
    rintro info _ rfl
    obtain ⟨hstatus, hcounter, hlist, hlist'⟩ :=
      getBookHty_alike env.myAscTimeLite env.copies info
    rw [← hstatus, ← hcounter, hlist, hlist']
    refine listed_alike (l := { Locals.start s with
      result := _, numActy := _, activities := [] }) ?_ Iff.rfl _
    exact { hstart with
      activities := Iff.rfl, numActy := rfl, result := rfl, queryParsed := fun _ => ⟨rfl, rfl⟩ }
  · exact Traced.inStep_pure { hstart with result := rfl, queryParsed := fun _ => ⟨rfl, rfl⟩ }

/-- The search for WOW and the one for BUY that the option `-f` asks for take equally many entries
of the user's history. -/
def FindsAlike (s s' : SiteServer) (c : Command) : Prop :=
  c.IsOption 0 'f' → ∀ name, c.params[0]? = some name → ∀ user,
    getUserInfo s.acties.server name none = some (some user) →
      (found ActyText.wow (s.acties.activity user)).length =
        (found ActyText.buy (s'.acties.activity user)).length

theorem optionBody_alike (h : Mirrored s s') (hfound : FindsAlike s s' c) :
    Traced.InStep (Locals.Alike s s') (optionBody env s c .wow) (optionBody env s' c .buy) := by
  have hstart := start_alike h
  rw [optionBody, optionBody]
  split_ifs with hf
  · exact friendBody_alike h (hfound hf)
  · exact bookBody_alike h
  · exact Traced.inStep_pure { hstart with queryParsed := fun hresult => absurd rfl hresult }
  · exact Traced.inStep_pure { hstart with cmdValid := rfl }

/-- The histories of the site; the reply of one of them counts as given already. -/
theorem listing_alike (h : Mirrored s s') (rounds : ℕ) (hparams : c.params = []) :
    Traced.InStep (Locals.Alike s s') (wowBody rounds env s c) (buyBody rounds env s' c) := by
  have hstart := start_alike h
  have hslots := fun i => (h.bookTotal.slots i).length
  have hsome : (briefGlabalBookHty rounds env.first s.bookTotal (.of .byWow)).isSome ↔
      (briefGlabalBookHty rounds env.first s'.bookTotal (.of .byBuy)).isSome := by
    rw [briefGlabalBookHty_isSome fun i => (hslots i).1,
      briefGlabalBookHty_isSome fun i => (hslots i).2, h.bookTotal.actyHeadOffset,
      h.bookTotal.actyTailOffset]
  rw [wowBody, buyBody, hparams]
  refine Traced.inStep_bind (Traced.inStep_ofOption (rel_of_isSome hsome)) fun text text' _ => ?_
  exact Traced.inStep_pure { hstart with queryParsed := fun hresult => absurd rfl hresult }

/-- The branches for a name that is the user's own and nobody's in the directory. -/
theorem noUser_alike (h : Mirrored s s') (rounds : ℕ) {rest : List CString}
    (hparams : c.params = env.userName :: rest)
    (hnone : getUserInfo s.acties.server env.userName none = some none) :
    Traced.InStep (Locals.Alike s s') (wowBody rounds env s c) (buyBody rounds env s' c) := by
  have hstart := start_alike h
  rw [wowBody, buyBody, hparams]
  dsimp only
  rw [h.acties.server, lookUpUser_mirror]
  apply Traced.inStep_bind_same
  intro user huser
  obtain rfl : none = user := Option.some.inj (hnone.symm.trans huser)
  dsimp only
  rw [noUser, noUser]
  split_ifs
  · exact Traced.inStep_ofOption .none
  · exact Traced.inStep_pure { hstart with result := rfl, queryParsed := fun _ => ⟨rfl, rfl⟩ }

end Branches

/-! ### What a name is looked up for -/

section Logs

variable {env : Surroundings} {s : SiteServer} {c : Command} {param : CString}
  {rest : List CString}

theorem noUser_log : (noUser env s).log = [] := by
  rw [noUser]
  split_ifs <;> rfl

/-- `wow` looks up a user of the name of the book, and nothing else. -/
theorem wowBody_log (rounds : ℕ) (hparams : c.params = param :: rest) :
    (wowBody rounds env s c).log = [.user param] := by
  rw [wowBody, hparams]
  apply Traced.log_bind_silent
  intro user
  cases user with
  | none => exact noUser_log
  | some user => rfl

theorem getBookInfo_log (g : Server) (malloc : Bool) (name : CString) :
    (getBookInfo g malloc (some name)).log = [.book name] := by
  change (Traced.note (Lookup.book name) >>= fun _ => _).log = _
  apply Traced.log_bind_silent
  intro _
  apply Traced.log_bind_silent
  intro bookFound
  cases bookFound with
  | none => rfl
  | some book => cases malloc <;> rfl

/-- Marking a book looks up the book, whatever becomes of the mark. -/
theorem markNamed_log (m : Mark) (user : ℕ) :
    (markNamed env s m user (some param) param).log = [.book param] := by
  rw [← getBookInfo_log s.acties.server env.bookList param]
  apply Traced.log_bind_silent
  rintro ⟨result, books⟩
  dsimp only
  split_ifs
  · apply Traced.log_bind_silent
    intro book
    apply Traced.log_bind_silent
    rintro ⟨result', site⟩
    dsimp only
    split_ifs <;> rfl
  · rfl

/-- `buy` looks up the session's user, and the book if there is one. -/
theorem buyBody_log (rounds : ℕ) (hparams : c.params = param :: rest) :
    (buyBody rounds env s c).log = .user env.userName ::
      if getUserInfo s.acties.server env.userName none = some none then [] else [.book param] := by
  rw [buyBody, hparams]
  dsimp only
  rw [Traced.log_bind, lookUpUser_result, getUserInfo_eq]
  cases s.acties.server.userList.find? _ with
  | none =>
    rw [if_pos rfl, Option.elim_some]
    dsimp only
    rw [noUser_log]
    rfl
  | some user =>
    rw [if_neg (by simp), Option.elim_some]
    dsimp only
    rw [markNamed_log]
    rfl

theorem inputWow_log (rounds : ℕ) (hoption : c.numOptions = 0)
    (hparams : c.params = param :: rest) :
    (inputWow rounds env s c).log = [.user param] := by
  rw [inputWow, if_pos hoption, ← wowBody_log rounds hparams]
  exact Traced.log_bind_silent fun _ => rfl

theorem inputBuy_log (rounds : ℕ) (hoption : c.numOptions = 0)
    (hparams : c.params = param :: rest) :
    (inputBuy rounds env s c).log = .user env.userName ::
      if getUserInfo s.acties.server env.userName none = some none then [] else [.book param] := by
  rw [inputBuy, if_pos hoption, ← buyBody_log rounds hparams]
  exact Traced.log_bind_silent fun _ => rfl

end Logs

/-! ### What an option finds -/

section Friends

variable {env : Surroundings} {s : SiteServer} {c : Command} {m : Mark} {name : CString}
  {user : ℕ}

/-- The rest of `-f` for a user that is found. -/
theorem friendBody_result (hname : c.params[0]? = some name)
    (huser : getUserInfo s.acties.server name none = some (some user)) :
    (friendBody env s c m).result =
      (userActyLoop m.act env.copies (s.acties.activity user) ⟨.null, false, 0, 0⟩).bind fun r =>
        if r.1 = .ok then
          (Brief.briefActy env.myAscTimeLite env.first r.2.counter
            (r.2.activities.nodes (s.acties.activity user))).map fun rtnMsg =>
              { Locals.start s with
                activities := r.2.activities.nodes (s.acties.activity user)
                numActy := r.2.counter, rtnMsg := rtnMsg, result := r.1, queryParsed := true }
        else some
          { Locals.start s with
            activities := r.2.activities.nodes (s.acties.activity user)
            numActy := r.2.counter, result := r.1 } := by
  rw [friendBody, Traced.result_bind, Traced.result_ofOption, hname, Option.bind_some,
    Traced.result_bind, lookUpUser_result, huser, Option.bind_some]
  dsimp only
  rw [Traced.result_bind, Traced.result_ofOption, getUserActy_mark]
  cases userActyLoop m.act env.copies (s.acties.activity user) ⟨.null, false, 0, 0⟩ with
  | none => rfl
  | some r =>
    rw [Option.map_some, Option.bind_some, Option.bind_some]
    dsimp only
    split_ifs with hresult
    · cases Brief.briefActy env.myAscTimeLite env.first r.2.counter _ with
      | none => rfl
      | some rtnMsg => rfl
    · rfl

/-- With memory for the copies of all entries found, and none for the first reply. -/
theorem friend_copied (hname : c.params[0]? = some name)
    (huser : getUserInfo s.acties.server name none = some (some user))
    (hcopies : ∀ k < (found m.act (s.acties.activity user)).length, env.copies k ≠ none)
    (hfirst : env.first = false) :
    (friendBody env s c m >>= fun l => Traced.ofOption (l.finish env)).result =
      some ⟨briefEx env.tail .errGeneral none, s⟩ := by
  rw [Traced.result_bind, friendBody_result hname huser]
  obtain ⟨addresses, -, -, p, hloop⟩ | ⟨⟨k, hk, hnone⟩, -⟩ :=
    userActyLoop_null m.act env.copies (s.acties.activity user)
  · rw [hloop, Option.bind_some, if_pos rfl, hfirst]
    rfl
  · exact absurd hnone (hcopies k hk)

theorem friend_failed (hname : c.params[0]? = some name)
    (huser : getUserInfo s.acties.server name none = some (some user)) {k : ℕ}
    (hk : k < (found m.act (s.acties.activity user)).length) (hnone : env.copies k = none)
    {a : Answer}
    (ha : (friendBody env s c m >>= fun l => Traced.ofOption (l.finish env)).result = some a) :
    a.rtnMsg = none ∨ a.rtnMsg = some Brief.noActivities := by
  rw [Traced.result_bind, friendBody_result hname huser] at ha
  obtain ⟨addresses, hlength, hmalloc, -⟩ | ⟨-, l, hloop⟩ :=
    userActyLoop_null m.act env.copies (s.acties.activity user)
  · have hsome := hmalloc k (hlength ▸ hk)
    rw [hnone, List.getElem?_eq_getElem (hlength ▸ hk)] at hsome
    cases hsome
  · have hfail : SystemStatus.fail ≠ .ok := by decide
    rw [hloop, Option.bind_some, if_neg hfail, Option.bind_some, Traced.result_ofOption] at ha
    exact finish_of_fail rfl hfail rfl ha

/-- A session with memory for some copies and for the last reply only. -/
def scarceSession (userName : CString) (copies : ℕ) : Surroundings where
  userName := userName
  diagnoses := false
  myAscTimeLite _ := .empty
  bookList := true
  copies k := if k = copies then none else some k
  mark := ⟨0, .empty, true, true⟩
  first := false
  tail := true

/-- One search finds more than the other: memory that is enough for one of the lists only. -/
theorem found_of_inStep {s' : SiteServer} (userName : CString)
    (hname : c.params[0]? = some name)
    (huser : getUserInfo s.acties.server name none = some (some user))
    (huser' : getUserInfo s'.acties.server name none = some (some user))
    (h : ∀ copies, Traced.InStep (Answer.Alike s s')
      (friendBody (scarceSession userName copies) s c .wow >>= fun l =>
        Traced.ofOption (l.finish (scarceSession userName copies)))
      (friendBody (scarceSession userName copies) s' c .buy >>= fun l =>
        Traced.ofOption (l.finish (scarceSession userName copies)))) :
    (found ActyText.wow (s.acties.activity user)).length =
      (found ActyText.buy (s'.acties.activity user)).length := by
  have hroom : ∀ n, ∀ k < n, (scarceSession userName n).copies k ≠ none := by
    intro n k hk
    have hcopy : (scarceSession userName n).copies k = some k := if_neg hk.ne
    rw [hcopy]
    exact Option.some_ne_none k
  have hlast : ∀ n, (scarceSession userName n).copies n = none := fun n => if_pos rfl
  have hdiffer : ∀ rtnMsg, rtnMsg = none ∨ rtnMsg = some Brief.noActivities →
      ¬ Option.Rel Retagged (some Brief.systemError) rtnMsg ∧
        ¬ Option.Rel Retagged rtnMsg (some Brief.systemError) := by
    rintro _ (rfl | rfl)
    · exact ⟨by rintro ⟨⟩, by rintro ⟨⟩⟩
    · rw [Option.rel_some_some, Option.rel_some_some]
      exact ⟨fun hsame => absurd hsame.length_eq (by decide),
        fun hsame => absurd hsame.length_eq (by decide)⟩
  rcases lt_trichotomy (found ActyText.wow (s.acties.activity user)).length
    (found ActyText.buy (s'.acties.activity user)).length with hless | hsame | hmore
  · obtain ⟨a, ha, halike⟩ := (h _).of_left (friend_copied hname huser (hroom _) rfl)
    exact absurd halike.rtnMsg (hdiffer _ (friend_failed hname huser' hless (hlast _) ha)).1
  · exact hsame
  · obtain ⟨a, ha, halike⟩ := (h _).of_right (friend_copied hname huser' (hroom _) rfl)
    exact absurd halike.rtnMsg (hdiffer _ (friend_failed hname huser hmore (hlast _) ha)).2

end Friends

/-! ### The commands -/

section Commands

variable {env : Surroundings} {s s' : SiteServer} {c : Command}

theorem inStep_finish {body body' : Traced Lookup Locals}
    (h : Traced.InStep (Locals.Alike s s') body body') :
    Traced.InStep (Answer.Alike s s') (body >>= fun l => Traced.ofOption (l.finish env))
      (body' >>= fun l => Traced.ofOption (l.finish env)) :=
  Traced.inStep_bind h fun _ _ hl => Traced.inStep_ofOption (finish_alike hl)

/-- Without options the handlers note different lookups for a name, unless it is the session's
user's and there is no such user. -/
theorem not_inStep_of_name (rounds : ℕ) {param : CString} {rest : List CString}
    (hoption : c.numOptions = 0) (hparams : c.params = param :: rest)
    (h : Traced.InStep (Answer.Alike s s') (inputWow rounds env s c) (inputBuy rounds env s' c)) :
    param = env.userName ∧ getUserInfo s'.acties.server env.userName none = some none := by
  have hlog := h.log
  rw [inputWow_log rounds hoption hparams, inputBuy_log rounds hoption hparams] at hlog
  obtain ⟨hname, hrest⟩ := List.cons_eq_cons.mp hlog
  refine ⟨Lookup.user.inj hname, ?_⟩
  by_contra hfound
  rw [if_neg hfound] at hrest
  cases hrest

/-- The two handlers look for the same: with an option, without a parameter, or with the name of
the session's user that nobody has. -/
def LooksAlike (userName : CString) (s : SiteServer) (c : Command) : Prop :=
  c.numOptions ≠ 0 ∨ c.params = [] ∨ c.params.head? = some userName ∧
    getUserInfo s.acties.server userName none = some none

theorem inputs_inStep (h : Mirrored s s') (hlooks : LooksAlike env.userName s c)
    (hfound : FindsAlike s s' c) (rounds : ℕ) :
    Traced.InStep (Answer.Alike s s') (inputWow rounds env s c) (inputBuy rounds env s' c) := by
  rw [inputWow, inputBuy]
  by_cases hoption : c.numOptions = 0
  · rw [if_pos hoption, if_pos hoption]
    apply inStep_finish
    rcases hlooks with hsome | hparams | ⟨hname, hnone⟩
    · exact absurd hoption hsome
    · exact listing_alike h rounds hparams
    · obtain ⟨rest, hparams⟩ := List.head?_eq_some_iff.mp hname
      exact noUser_alike h rounds hparams hnone
  · rw [if_neg hoption, if_neg hoption]
    exact inStep_finish (optionBody_alike h hfound)

theorem looksAlike_of_inStep (h : Mirrored s s')
    (hstep : Traced.InStep (Answer.Alike s s') (inputWow 0 env s c) (inputBuy 0 env s' c)) :
    LooksAlike env.userName s c := by
  by_cases hoption : c.numOptions = 0
  · cases hparams : c.params with
    | nil => exact Or.inr (Or.inl hparams)
    | cons param rest =>
      obtain ⟨rfl, hnone⟩ := not_inStep_of_name 0 hoption hparams hstep
      rw [← lookUpUser_result, h.acties.server, lookUpUser_mirror, lookUpUser_result] at hnone
      exact Or.inr (Or.inr ⟨by rw [hparams, List.head?_cons], hnone⟩)
  · exact Or.inl hoption

theorem findsAlike_of_inStep {userName : CString} (h : Mirrored s s')
    (hstep : ∀ env : Surroundings, env.userName = userName →
      Traced.InStep (Answer.Alike s s') (inputWow 0 env s c) (inputBuy 0 env s' c)) :
    FindsAlike s s' c := by
  intro hf name hname user huser
  have hoption : ¬ c.numOptions = 0 := by
    intro hnone
    rw [Command.numOptions, List.length_eq_zero_iff] at hnone
    rw [Command.IsOption, hnone] at hf
    cases hf
  have huser' : getUserInfo s'.acties.server name none = some (some user) := by
    rw [← lookUpUser_result, h.acties.server, lookUpUser_mirror, lookUpUser_result, huser]
  refine found_of_inStep userName hname huser huser' fun copies => ?_
  have hcopies := hstep (scarceSession userName copies) rfl
  rwa [inputWow, inputBuy, if_neg hoption, if_neg hoption, optionBody, optionBody, if_pos hf,
    if_pos hf] at hcopies

/-- The operations always go in step. The commands do, whatever the memory, the clock and the
number of rounds, exactly if they look for the same and find as much. -/
theorem wow_buy_inStep_iff (userName : CString) (h : Mirrored s s') (c : Command) :
    (∀ m host book input, Option.Rel (fun r r' => r.1 = r'.1 ∧ Follows s s' r.2 r'.2)
      (markSite m s host book input) (markSite m.mirror s' host book input)) ∧
    ((∀ env : Surroundings, env.userName = userName → ∀ rounds,
        Traced.InStep (Answer.Alike s s') (inputWow rounds env s c) (inputBuy rounds env s' c)) ↔
      LooksAlike userName s c ∧ FindsAlike s s' c) := by
  refine ⟨markSite_follows h, ?_⟩
  constructor
  · intro hstep
    exact ⟨looksAlike_of_inStep h (hstep (scarceSession userName 0) rfl 0),
      findsAlike_of_inStep h fun env henv => hstep env henv 0⟩
  · rintro ⟨hlooks, hfound⟩ env rfl rounds
    exact inputs_inStep h hlooks hfound rounds

end Commands

theorem smallSite_mirrored : Mirrored smallSite smallSite := by
  refine mirrored_self (fun b => ?_) fun _ => rfl
  change (Function.update (fun _ => none) 0 (some (newBookInfo 0 dune)) b).map BookInfo.mirror =
    Function.update (fun _ => none) 0 (some (newBookInfo 0 dune)) b
  by_cases hb : b = 0
  · rw [hb, Function.update_self]
    rfl
  · rw [Function.update_of_ne hb]
    rfl

def markTwice (m m' : Mark) : Option SiteServer := do
  let (_, s) ← markSite m smallSite 1 0 ⟨0, .empty, true, true⟩
  let (_, s) ← markSite m' s 2 0 ⟨1, .empty, true, true⟩
  return s

theorem markTwice_mirrored (m m' : Mark) :
    Option.Rel Mirrored (markTwice m m') (markTwice m.mirror m'.mirror) := by
  have hfirst := markSite_follows smallSite_mirrored m 1 0 ⟨0, .empty, true, true⟩
  rw [markTwice, markTwice, Option.bind_eq_bind]
  refine rel_bind hfirst fun r r' h => ?_
  exact rel_bind (markSite_follows h.2.mirrored m' 2 0 _) fun _ _ h' => .some h'.2.mirrored

/-- Eve has wowed and Al bought the book, or the other way round: the wows of Eve are listed as
her buys are. -/
theorem wow_buy_inStep_friend :
    ∃ s s', markTwice .wow .buy = some s ∧ markTwice .buy .wow = some s' ∧
      ∀ env : Surroundings, env.userName = alex → ∀ rounds, Traced.InStep (Answer.Alike s s')
        (inputWow rounds env s ⟨wow, word ['f'], [eveSession.userName]⟩)
        (inputBuy rounds env s' ⟨wow, word ['f'], [eveSession.userName]⟩) := by
  have heve : (markTwice .wow .buy).map (fun s => getUserInfo s.acties.server
      eveSession.userName none) = some (some (some 1)) := by decide
  have hwows : (markTwice .wow .buy).map (fun s =>
      (found ActyText.wow (s.acties.activity 1)).length) = some 1 := by decide
  have hbuys : (markTwice .buy .wow).map (fun s =>
      (found ActyText.buy (s.acties.activity 1)).length) = some 1 := by decide
  have hmirrored := markTwice_mirrored .wow .buy
  obtain ⟨s, hs⟩ : ∃ s, markTwice .wow .buy = some s := ⟨_, rfl⟩
  obtain ⟨s', hs'⟩ : ∃ s', markTwice .buy .wow = some s' := ⟨_, rfl⟩
  rw [Mark.mirror, Mark.mirror, hs, hs', Option.rel_some_some] at hmirrored
  rw [hs, Option.map_some] at heve hwows
  rw [hs', Option.map_some] at hbuys
  refine ⟨s, s', hs, hs', (wow_buy_inStep_iff alex hmirrored _).2.mpr ⟨?_, ?_⟩⟩
  · exact Or.inl (by decide)
  · intro _ name hname user huser
    obtain rfl := Option.some.inj hname
    obtain rfl := Option.some.inj (Option.some.inj (huser.symm.trans (Option.some.inj heve)))
    exact Option.some.inj (hwows.trans hbuys.symm)

/-- Eve wows and buys a book: `wow` looks for a user called Dune and meets the name of a user that
is NULL, and `buy` finds Eve and the book. -/
theorem wow_buy_not_inStep :
    Mirrored smallSite smallSite ∧
      (¬ ∀ rounds, Traced.InStep (Answer.Alike smallSite smallSite)
        (inputWow rounds eveSession smallSite ⟨wow, [], [dune]⟩)
        (inputBuy rounds eveSession smallSite ⟨wow, [], [dune]⟩)) ∧
      (inputWow 0 eveSession smallSite ⟨wow, [], [dune]⟩).log = [.user dune] ∧
      (inputBuy 0 eveSession smallSite ⟨wow, [], [dune]⟩).log =
        [.user eveSession.userName, .book dune] ∧
      (inputWow 0 eveSession smallSite ⟨wow, [], [dune]⟩).result.map Answer.rtnMsg = none ∧
      (inputBuy 0 eveSession smallSite ⟨wow, [], [dune]⟩).result.map Answer.rtnMsg =
        some (some Brief.systemError) := by
  refine ⟨smallSite_mirrored, fun h => ?_, by decide, by decide, by decide, by decide⟩
  obtain ⟨hname, -⟩ := not_inStep_of_name 0 rfl rfl (h 0)
  exact absurd hname (by decide)

end MorningProjects.ELibrary
