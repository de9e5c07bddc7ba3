import MorningProjects.ELibrary.Commands

/-!
# The replies of whatsup, wow and buy

The tail of the handlers answers success with the error text and failure with the listing of
no activities, so that no branch replies what it should. Only a friend whose name was not
given is reported missing.
-/
namespace MorningProjects.ELibrary
open Library

/-! ### What has to hold -/

/-- What a command comes to: someone or something it needs is missing, its option is none of the
command's, or its operation is run, with a status and a text. -/
inductive Purpose where
  | missing
  | unsupported
  | done (result : SystemStatus) (text : Brief.Reply)

def Purpose.Failed : Purpose → Prop
  | .missing => True
  | .unsupported => False
  | .done result _ => result ≠ .ok

def Purpose.text : Purpose → Option (List UInt8)
  | .done .ok text => text.join
  | _ => none

section Purposes

variable (rounds : ℕ) (env : Surroundings) (s : SiteServer) (c : Command)

def activitiesText (numActy : UInt32) (activities : List Acty) : Brief.Reply :=
  Brief.briefActy env.myAscTimeLite true numActy activities

/-- `whatsup`, `whatsup -f friendname`, `whatsup -h`; no purpose where an operation has no
result. -/
def whatsupPurpose : Option Purpose :=
  if c.numOptions = 0 then
    (getUserInfo s.acties.server env.userName none).bind fun
    | none => some .missing
    | some host => (mergeActy rounds env.copies s.acties host [] 0).map fun r =>
      .done r.result (activitiesText env r.counter r.activities)
  else if c.IsOption 0 'f' then
    (getUserInfo s.acties.server env.userName none).bind fun
    | none => some .missing
    | some host =>
      match c.params[0]?.bind (getFrdInfo s.acties.server host) with
      | none => some .missing
      | some friend => (getUserActy s.acties friend .all env.copies 0 .null).map fun r =>
        .done r.result
          (activitiesText env r.numActy (r.activities.nodes (s.acties.activity friend)))
  else if c.IsOption 0 'h' then some (.done .ok (some (some (BriefEvt.hlpWhatsup.text .empty))))
  else some .unsupported

def withBook (name : CString) (operation : ℕ → Option Purpose) : Option Purpose :=
  (getBookInfo s.acties.server env.bookList (some name)).result.bind fun
  | (.ok, none) => some .missing
  | (.ok, some book) => operation book
  | (result, _) => some (.done result none)

/-- `wow`, `wow bookname`, `wow -f friendname`, `wow -b bookname`, `wow -h`, and the same for
`buy`. -/
def markPurpose (m : Mark) : Option Purpose :=
  if c.numOptions = 0 then
    match c.params[0]? with
    | none => (briefGlabalBookHty rounds true s.bookTotal (.of m.filter)).map fun text =>
      .done .ok (some (some text))
    | some name => (getUserInfo s.acties.server env.userName none).bind fun
      | none => some .missing
      | some user => withBook env s name fun book =>
        (markSite m s user book env.mark).map fun (result, _) =>
          .done result (some (some (m.evt.text name)))
  else if c.IsOption 0 'f' then
    match c.params[0]? with
    | none => some .missing
    | some name => (getUserInfo s.acties.server name none).bind fun
      | none => some .missing
      | some user => (getUserActy s.acties user (.of m.filter) env.copies 0 .null).map fun r =>
        .done r.result
          (activitiesText env r.numActy (r.activities.nodes (s.acties.activity user)))
  else if c.IsOption 0 'b' then
    match c.params[0]? with
    | none => some .missing
    | some name => withBook env s name fun book => (s.acties.server.book book).map fun info =>
      let r := getBookHty env.myAscTimeLite env.copies info (.of m.filter) 0 []
      .done r.status (activitiesText env r.counter r.activities)
  else if c.IsOption 0 'h' then some (.done .ok (some (some (m.help.text .empty))))
  else some .unsupported

end Purposes

/-- The command comes to something that can be told, and something is missing or fails. -/
def Fails (p : Option Purpose) : Prop := ∃ purpose, p = some purpose ∧ purpose.Failed

/-- A reply is the general error exactly if something is missing or fails, the text for an
invalid command exactly if the option is none of the command's, and otherwise the text of the
operation. -/
structure RepliesTo (p : Option Purpose) (a : Answer) : Prop where
  general : a.rtnMsg = some (BriefEvt.errGeneral.text .empty) ↔ Fails p
  invalid : a.rtnMsg = some (BriefEvt.errCmdInvalid.text .empty) ↔ p = some .unsupported
  text : ¬ Fails p → p ≠ some .unsupported → ∃ text, p.bind Purpose.text = some text ∧
    a.rtnMsg = some text

def ReplyMeets (p : Option Purpose) (t : Traced Lookup Answer) : Prop :=
  ∃ a, t.result = some a ∧ RepliesTo p a

/-! ### The tail -/

section Tail

variable {env : Surroundings} {l : Locals} {a : Answer} {p : Option Purpose}

/-- A reply with the general error, or without memory for it, says that something failed. -/
theorem fails_of_repliesTo (h : RepliesTo p a)
    (ha : a.rtnMsg = none ∨ a.rtnMsg = some (BriefEvt.errGeneral.text .empty)) : Fails p := by
  rcases ha with hnull | hgeneral
  · by_contra hfails
    by_cases hunsupported : p = some .unsupported
    · have hinvalid := h.invalid.mpr hunsupported
      rw [hnull] at hinvalid
      cases hinvalid
    · obtain ⟨text, -, htext⟩ := h.text hfails hunsupported
      rw [hnull] at htext
      cases htext
  · exact h.general.mp hgeneral

/-- A reply without activities is what it should be only where there are none. -/
theorem text_of_repliesTo (h : RepliesTo p a)
    (ha : a.rtnMsg = none ∨ a.rtnMsg = some Brief.noActivities) :
    p.bind Purpose.text = some Brief.noActivities := by
  have hgeneral : ¬ Fails p := by
    intro hfails
    have hreply := h.general.mpr hfails
    rcases ha with ha | ha
    · rw [ha] at hreply
      cases hreply
    · rw [ha] at hreply
      exact absurd hreply (by decide)
  have hinvalid : p ≠ some .unsupported := by
    intro hunsupported
    have hreply := h.invalid.mpr hunsupported
    rcases ha with ha | ha
    · rw [ha] at hreply
      cases hreply
    · rw [ha] at hreply
      exact absurd hreply (by decide)
  obtain ⟨text, htext, hreply⟩ := h.text hgeneral hinvalid
  rcases ha with ha | ha
  · rw [ha] at hreply
    cases hreply
  · rw [ha] at hreply
    rw [htext, ← hreply]

/-- The variables that make the tail reply something else: success where nothing failed, or
failure where the text is not that of no activities. -/
def Locals.Misses (p : Option Purpose) (l : Locals) : Prop :=
  ((l.cmdValid = false ∨ l.result = .ok) ∧ ¬ Fails p) ∨
    (l.cmdValid = true ∧ l.result ≠ .ok ∧ l.queryParsed = false ∧
      p.bind Purpose.text ≠ some Brief.noActivities)

theorem not_replyMeets {body : Traced Lookup Locals} (h : body.Gives (Locals.Misses p)) :
    ¬ ReplyMeets p (body >>= fun l => Traced.ofOption (l.finish env)) := by
  rintro ⟨a, ha, hreplies⟩
  have hfalse : (body >>= fun l => Traced.ofOption (l.finish env)).Gives
      fun a => ¬ RepliesTo p a := by
    refine Traced.gives_bind h ?_
    rintro l (⟨hok, hfails⟩ | ⟨hvalid, hresult, hparsed, htext⟩) a ha hreplies
    · obtain rfl := Option.some.inj ((finish_of_ok hok).symm.trans ha)
      refine hfails (fails_of_repliesTo hreplies ?_)
      cases env.tail with
      | false => exact Or.inl rfl
      | true => exact Or.inr rfl
    · exact htext (text_of_repliesTo hreplies (finish_of_fail hvalid hresult hparsed ha))
  exact hfalse a ha hreplies

end Tail

/-! ### The branches -/

section Branches

variable {rounds : ℕ} {env : Surroundings} {s : SiteServer} {c : Command} {l : Locals}
  {p : Option Purpose} {m : Mark}

theorem not_fails_unsupported : ¬ Fails (some .unsupported) := by
  rintro ⟨purpose, ⟨⟩, hfailed⟩
  exact hfailed

theorem fails_done {result : SystemStatus} {text : Brief.Reply} :
    Fails (some (.done result text)) ↔ result ≠ .ok := by
  constructor
  · rintro ⟨purpose, ⟨⟩, hfailed⟩
    exact hfailed
  · exact fun h => ⟨_, rfl, h⟩

theorem text_done_of_ne {result : SystemStatus} {text : Brief.Reply} (h : result ≠ .ok) :
    (some (Purpose.done result text)).bind Purpose.text = none := by
  cases result with
  | ok => exact absurd rfl h
  | _ => rfl

theorem text_ne_of_eq_none (h : p.bind Purpose.text = none) :
    p.bind Purpose.text ≠ some Brief.noActivities := by
  rw [h]
  exact (Option.some_ne_none _).symm

/-- The status of an operation decides, and the tail takes it the wrong way round. -/
theorem misses_done {text : Brief.Reply} (hvalid : l.cmdValid = true)
    (hparsed : l.result ≠ .ok → l.queryParsed = false) :
    l.Misses (some (.done l.result text)) := by
  by_cases hok : l.result = .ok
  · exact Or.inl ⟨Or.inr hok, fun h => fails_done.mp h hok⟩
  · exact Or.inr ⟨hvalid, hok, hparsed hok, text_ne_of_eq_none (text_done_of_ne hok)⟩

theorem misses_fail (h : p.bind Purpose.text ≠ some Brief.noActivities) :
    Locals.Misses p { Locals.start s with result := .fail } :=
  Or.inr ⟨rfl, SystemStatus.noConfusion, rfl, h⟩

theorem misses_missing : Locals.Misses (some .missing) { Locals.start s with result := .fail } :=
  misses_fail (text_ne_of_eq_none rfl)

theorem misses_unsupported :
    Locals.Misses (some .unsupported) { Locals.start s with cmdValid := false } :=
  Or.inl ⟨Or.inl rfl, not_fails_unsupported⟩

theorem head_noActivities : Brief.noActivities.head? = some 84 := rfl

/-- Help is no listing, and neither is the message that a book has a tag. -/
theorem text_ne_noActivities {briefEvent : BriefEvt} (ptr : CString)
    (h : briefEvent ≠ .errCmdInvalid ∧ briefEvent ≠ .errGeneral) :
    briefEvent.text ptr ≠ Brief.noActivities := by
  intro heq
  have hhead := head_noActivities
  rw [← heq] at hhead
  cases briefEvent with
  | errCmdInvalid => exact h.1 rfl
  | errGeneral => exact h.2 rfl
  | _ => cases hhead

def NamesNoFriend (env : Surroundings) (s : SiteServer) (c : Command) : Prop :=
  (∃ host, getUserInfo s.acties.server env.userName none = some (some host)) ∧
    c.IsOption 0 'f' ∧ c.params = []

theorem numOptions_ne_zero {i : ℕ} {x : Char} (h : c.IsOption i x) : c.numOptions ≠ 0 := by
  intro hzero
  rw [Command.IsOption, List.eq_nil_of_length_eq_zero hzero] at h
  cases h

/-- All branches of `whatsup` but one. -/
theorem whatsupBody_misses (h : ¬ NamesNoFriend env s c) :
    (whatsupBody rounds env s c).Gives (Locals.Misses (whatsupPurpose rounds env s c)) := by
  apply Traced.gives_bind_of_forall
  intro user huser
  rw [lookUpUser_result] at huser
  simp only [whatsupPurpose, huser, Option.bind_some]
  cases user with
  | none =>
    apply Traced.gives_pure
    apply misses_fail
    split_ifs
    · exact text_ne_of_eq_none rfl
    · exact text_ne_of_eq_none rfl
    · intro htext
      have htext' : BriefEvt.hlpWhatsup.text .empty = Brief.noActivities := Option.some.inj htext
      exact text_ne_noActivities .empty (by decide) htext'
    · exact text_ne_of_eq_none rfl
  | some host =>
    dsimp only
    by_cases hnone : c.numOptions = 0
    · rw [if_pos hnone, if_pos hnone]
      apply Traced.gives_bind_of_forall
      intro r hr
      rw [show mergeActy rounds env.copies s.acties host [] 0 = some r from hr]
      exact Traced.gives_pure (misses_done rfl fun _ => rfl)
    · rw [if_neg hnone, if_neg hnone]
      by_cases hfriend : c.IsOption 0 'f'
      · have hparams : c.params ≠ [] := fun hnil => h ⟨⟨host, huser⟩, hfriend, hnil⟩
        rw [if_pos ⟨hfriend, List.length_pos_iff.mpr hparams⟩, if_pos hfriend]
        apply Traced.gives_bind_of_forall
        intro frdName hname
        rw [show c.params[0]? = some frdName from hname]
        apply Traced.gives_bind_of_forall
        intro friend hfound
        obtain rfl : getFrdInfo s.acties.server host frdName = friend := Option.some.inj hfound
        rw [Option.bind_some]
        cases getFrdInfo s.acties.server host frdName with
        | none => exact Traced.gives_pure misses_missing
        | some friend =>
          apply Traced.gives_bind_of_forall
          intro r hr
          dsimp only
          rw [show getUserActy s.acties friend .all env.copies 0 .null = some r from hr]
          exact Traced.gives_pure (misses_done rfl fun _ => rfl)
      · rw [if_neg fun hboth => hfriend hboth.1, if_neg hfriend]
        split_ifs
        · exact Traced.gives_pure (Or.inl ⟨Or.inr rfl, fun hfails => fails_done.mp hfails rfl⟩)
        · exact Traced.gives_pure misses_unsupported

theorem mark_text_ne_noActivities (m : Mark) (ptr : CString) :
    m.evt.text ptr ≠ Brief.noActivities := by
  cases m with
  | wow => exact text_ne_noActivities ptr (by decide)
  | buy => exact text_ne_noActivities ptr (by decide)

theorem getBookInfo_cases {g : Server} {malloc : Bool} {name : CString}
    {found : SystemStatus × Option ℕ}
    (h : (getBookInfo g malloc (some name)).result = some found) :
    found = (.ok, none) ∨ (∃ book, found = (.ok, some book)) ∨ found = (.fail, none) := by
  simp only [getBookInfo, Traced.result_bind, Traced.result_ofOption, Traced.result_note,
    Option.bind_some] at h
  rcases hbook : getBookByName g none name with _ | _ | book <;> rw [hbook] at h
  · cases h
  · cases h
    exact Or.inl rfl
  · cases malloc with
    | false =>
      cases h
      exact Or.inr (Or.inr rfl)
    | true =>
      cases h
      exact Or.inr (Or.inl ⟨book, rfl⟩)

/-- A branch goes on from the book that was found, and fails without memory for its list; the
book that was not found has no status of its own. -/
theorem gives_withBook {name : CString} {operation : ℕ → Option Purpose}
    {f : SystemStatus × Option ℕ → Traced Lookup Locals}
    (hnone : (f (.ok, none)).Gives fun _ => False)
    (hbook : ∀ book, (f (.ok, some book)).Gives (Locals.Misses (operation book)))
    (hfail : (f (.fail, none)).Gives (Locals.Misses (some (.done .fail none)))) :
    (getBookInfo s.acties.server env.bookList (some name) >>= f).Gives
      (Locals.Misses (withBook env s name operation)) := by
  apply Traced.gives_bind_of_forall
  intro found hfound
  rw [withBook, hfound, Option.bind_some]
  rcases getBookInfo_cases hfound with rfl | ⟨book, rfl⟩ | rfl
  · exact fun l hl => (hnone l hl).elim
  · exact hbook book
  · exact hfail

theorem friendBody_misses (h : c.IsOption 0 'f') :
    (friendBody env s c m).Gives (Locals.Misses (markPurpose rounds env s c m)) := by
  apply Traced.gives_bind_of_forall
  intro name hname
  apply Traced.gives_bind_of_forall
  intro user huser
  rw [lookUpUser_result] at huser
  rw [markPurpose, if_neg (numOptions_ne_zero h), if_pos h,
    show c.params[0]? = some name from hname]
  dsimp only
  rw [huser, Option.bind_some]
  cases user with
  | none => exact Traced.gives_pure misses_missing
  | some user =>
    apply Traced.gives_bind_of_forall
    intro r hr
    dsimp only
    rw [show getUserActy s.acties user (.of m.filter) env.copies 0 .null = some r from hr,
      Option.map_some]
    split_ifs with hok
    · apply Traced.gives_bind_of_forall
      intro rtnMsg _
      exact Traced.gives_pure (misses_done rfl fun hne => absurd hok hne)
    · exact Traced.gives_pure (misses_done rfl fun _ => rfl)

theorem bookBody_misses (h : c.IsOption 0 'b') (hf : ¬ c.IsOption 0 'f') :
    (bookBody env s c m).Gives (Locals.Misses (markPurpose rounds env s c m)) := by
  apply Traced.gives_bind_of_forall
  intro name hname
  rw [markPurpose, if_neg (numOptions_ne_zero h), if_neg hf, if_pos h,
    show c.params[0]? = some name from hname]
  apply gives_withBook
  · exact Traced.gives_none rfl
  · intro book
    apply Traced.gives_bind_of_forall
    intro info hinfo
    rw [show s.acties.server.book book = some info from hinfo, Option.map_some]
    dsimp only
    split_ifs with hok
    · apply Traced.gives_bind_of_forall
      intro rtnMsg _
      exact Traced.gives_pure (misses_done rfl fun hne => absurd hok hne)
    · exact Traced.gives_pure (misses_done rfl fun _ => rfl)
  · exact Traced.gives_pure (misses_done rfl fun _ => rfl)

theorem optionBody_misses (h : c.numOptions ≠ 0) :
    (optionBody env s c m).Gives (Locals.Misses (markPurpose rounds env s c m)) := by
  rw [optionBody]
  by_cases hfriend : c.IsOption 0 'f'
  · rw [if_pos hfriend]
    exact friendBody_misses hfriend
  · rw [if_neg hfriend]
    by_cases hbook : c.IsOption 0 'b'
    · rw [if_pos hbook]
      exact bookBody_misses hbook hfriend
    · rw [if_neg hbook, markPurpose, if_neg h, if_neg hfriend, if_neg hbook]
      split_ifs
      · exact Traced.gives_pure (Or.inl ⟨Or.inr rfl, fun hfails => fails_done.mp hfails rfl⟩)
      · exact Traced.gives_pure misses_unsupported

/-- The branches without options list the site, with success for a status. -/
theorem misses_site {text : Option (List UInt8)} {queryParsed : Bool}
    (h : ¬ Fails p) :
    Locals.Misses p { Locals.start s with rtnMsg := text, queryParsed := queryParsed } :=
  Or.inl ⟨Or.inr rfl, h⟩

/-- Without a filter nothing can be marked. -/
theorem markNamed_unassigned {user : ℕ} {param : CString} :
    (markNamed env s m user none param).result = none := rfl

theorem not_fails_of_map {reply : Option (List UInt8)} :
    ¬ Fails (reply.map fun text => .done .ok (some (some text))) := by
  rintro ⟨purpose, hpurpose, hfailed⟩
  obtain ⟨text, -, rfl⟩ := Option.map_eq_some_iff.mp hpurpose
  exact hfailed rfl

/-- Whatever becomes of a mark, its text is no listing. -/
theorem text_markPurpose (m : Mark) {param : CString} {rest : List CString}
    (hoption : c.numOptions = 0) (hparams : c.params = param :: rest) :
    (markPurpose rounds env s c m).bind Purpose.text ≠ some Brief.noActivities := by
  intro htext
  rw [markPurpose, if_pos hoption, hparams] at htext
  obtain ⟨purpose, hpurpose, htext⟩ := Option.bind_eq_some_iff.mp htext
  obtain ⟨user, -, hpurpose⟩ := Option.bind_eq_some_iff.mp hpurpose
  cases user with
  | none =>
    cases hpurpose
    cases htext
  | some user =>
    obtain ⟨found, hfound, hpurpose⟩ := Option.bind_eq_some_iff.mp hpurpose
    rcases getBookInfo_cases hfound with rfl | ⟨book, rfl⟩ | rfl
    · cases hpurpose
      cases htext
    · obtain ⟨⟨result, site⟩, -, rfl⟩ := Option.map_eq_some_iff.mp hpurpose
      cases result with
      | ok => exact mark_text_ne_noActivities m param (Option.some.inj htext)
      | _ => cases htext
    · cases hpurpose
      cases htext

/-- Without a parameter the purpose is a listing of the site. -/
theorem not_fails_site (m : Mark) (hoption : c.numOptions = 0) (hparams : c.params = []) :
    ¬ Fails (markPurpose rounds env s c m) := by
  rw [markPurpose, if_pos hoption, hparams]
  exact not_fails_of_map

theorem noUser_misses (m : Mark) {param : CString} {rest : List CString}
    (hoption : c.numOptions = 0) (hparams : c.params = param :: rest) :
    (noUser env s).Gives (Locals.Misses (markPurpose rounds env s c m)) := by
  rw [noUser]
  split_ifs
  · exact Traced.gives_none rfl
  · exact Traced.gives_pure (misses_fail (text_markPurpose m hoption hparams))

/-- With the user and the filter that were meant, every status ends in the wrong reply. -/
theorem markNamed_misses (m : Mark) {user : ℕ} {param : CString} {rest : List CString}
    (hoption : c.numOptions = 0) (hparams : c.params = param :: rest)
    (huser : getUserInfo s.acties.server env.userName none = some (some user)) :
    (markNamed env s m user (some param) param).Gives
      (Locals.Misses (markPurpose rounds env s c m)) := by
  rw [markPurpose, if_pos hoption, hparams]
  dsimp only [List.getElem?_cons_zero]
  rw [huser, Option.bind_some]
  apply gives_withBook
  · exact Traced.gives_none rfl
  · intro book
    apply Traced.gives_bind_of_forall
    intro book' hbook
    obtain rfl : book = book' := Option.some.inj hbook
    apply Traced.gives_bind_of_forall
    intro marked hmarked
    obtain ⟨result, site⟩ := marked
    rw [show markSite m s user book env.mark = some (result, site) from hmarked,
      Option.map_some]
    dsimp only
    split_ifs with hok
    · apply Traced.gives_pure
      rw [hok]
      exact misses_site fun hfails => fails_done.mp hfails rfl
    · exact Traced.gives_pure (misses_done rfl fun _ => rfl)
  · exact Traced.gives_pure (misses_done rfl fun _ => rfl)

theorem wowBody_misses (h : c.numOptions = 0) :
    (wowBody rounds env s c).Gives (Locals.Misses (markPurpose rounds env s c .wow)) := by
  rw [wowBody]
  cases hparams : c.params with
  | nil =>
    apply Traced.gives_bind_of_forall
    intro text _
    exact Traced.gives_pure (misses_site (not_fails_site .wow h hparams))
  | cons param rest =>
    apply Traced.gives_bind_of_forall
    intro user _
    cases user with
    | some user => exact Traced.gives_none markNamed_unassigned
    | none => exact noUser_misses .wow h hparams

theorem buyBody_misses (h : c.numOptions = 0) :
    (buyBody rounds env s c).Gives (Locals.Misses (markPurpose rounds env s c .buy)) := by
  rw [buyBody]
  cases hparams : c.params with
  | nil =>
    apply Traced.gives_bind_of_forall
    intro text _
    exact Traced.gives_pure (misses_site (not_fails_site .buy h hparams))
  | cons param rest =>
    apply Traced.gives_bind_of_forall
    intro user huser
    cases user with
    | some user =>
      rw [lookUpUser_result] at huser
      exact markNamed_misses .buy h hparams huser
    | none => exact noUser_misses .buy h hparams

end Branches

/-! ### The handlers -/

/-- A friend that is not named is missing, and the tail says so if it has the memory. -/
theorem whatsup_meets_iff (rounds : ℕ) {env : Surroundings} {s : SiteServer} {c : Command}
    (h : NamesNoFriend env s c) :
    ReplyMeets (whatsupPurpose rounds env s c) (inputWhatsup rounds env s c) ↔
      env.tail = true := by
  obtain ⟨⟨host, hhost⟩, hfriend, hparams⟩ := h
  have hpurpose : whatsupPurpose rounds env s c = some .missing := by
    rw [whatsupPurpose, if_neg (numOptions_ne_zero hfriend), if_pos hfriend, hhost, hparams]
    rfl
  have hfails : Fails (some .missing) := ⟨.missing, rfl, trivial⟩
  have hbody : (whatsupBody rounds env s c).result =
      some { Locals.start s with cmdValid := false } := by
    have hhelp : ¬ c.IsOption 0 'h' := by
      intro hhelp
      rw [Command.IsOption, show c.option[0]? = _ from hfriend] at hhelp
      exact absurd hhelp (by decide)
    rw [whatsupBody, Traced.result_bind, lookUpUser_result, hhost, Option.bind_some]
    dsimp only
    rw [if_neg (numOptions_ne_zero hfriend), Command.numParams, hparams, if_neg, if_neg hhelp]
    · rfl
    · exact fun hboth => absurd hboth.2 (Nat.lt_irrefl 0)
  have hanswer : (inputWhatsup rounds env s c).result =
      some ⟨if env.tail then some (BriefEvt.errGeneral.text .empty) else none, s⟩ := by
    rw [inputWhatsup, Traced.result_bind, hbody, Option.bind_some, Traced.result_ofOption,
      finish_of_ok (Or.inl rfl)]
    rfl
  rw [hpurpose]
  constructor
  · rintro ⟨a, ha, hreplies⟩
    obtain rfl := Option.some.inj (hanswer.symm.trans ha)
    have hreply := hreplies.general.mpr hfails
    by_contra hmem
    rw [if_neg hmem] at hreply
    cases hreply
  · intro hmem
    rw [hmem, if_pos rfl] at hanswer
    have hinvalid : some (BriefEvt.errGeneral.text .empty) ≠
        some (BriefEvt.errCmdInvalid.text .empty) := by decide
    have hmissing : some Purpose.missing ≠ some .unsupported := by
      intro h
      cases h
    exact ⟨_, hanswer, iff_of_true rfl hfails, iff_of_false hinvalid hmissing,
      fun h => absurd hfails h⟩

theorem not_replyMeets_wow (rounds : ℕ) (env : Surroundings) (s : SiteServer) (c : Command) :
    ¬ ReplyMeets (markPurpose rounds env s c .wow) (inputWow rounds env s c) := by
  rw [inputWow]
  split_ifs with h
  · exact not_replyMeets (wowBody_misses h)
  · exact not_replyMeets (optionBody_misses h)

theorem not_replyMeets_buy (rounds : ℕ) (env : Surroundings) (s : SiteServer) (c : Command) :
    ¬ ReplyMeets (markPurpose rounds env s c .buy) (inputBuy rounds env s c) := by
  rw [inputBuy]
  split_ifs with h
  · exact not_replyMeets (buyBody_misses h)
  · exact not_replyMeets (optionBody_misses h)

/-- The reply is what it should be for `whatsup -f` without a name, if the session's user exists
and there is memory for the reply, and for no other command. -/
theorem replies_meet_iff (env : Surroundings) (s : SiteServer) (c : Command) :
    ((∃ rounds, ReplyMeets (whatsupPurpose rounds env s c) (inputWhatsup rounds env s c)) ↔
      NamesNoFriend env s c ∧ env.tail = true) ∧
    (¬ ∃ rounds, ReplyMeets (markPurpose rounds env s c .wow) (inputWow rounds env s c)) ∧
    ¬ ∃ rounds, ReplyMeets (markPurpose rounds env s c .buy) (inputBuy rounds env s c) := by
  refine ⟨⟨?_, ?_⟩, ?_, ?_⟩
  · rintro ⟨rounds, hmeets⟩
    by_cases hnames : NamesNoFriend env s c
    · exact ⟨hnames, (whatsup_meets_iff rounds hnames).mp hmeets⟩
    · exact absurd hmeets (not_replyMeets (whatsupBody_misses hnames))
  · rintro ⟨hnames, hmem⟩
    exact ⟨0, (whatsup_meets_iff 0 hnames).mpr hmem⟩
  · rintro ⟨rounds, hmeets⟩
    exact not_replyMeets_wow rounds env s c hmeets
  · rintro ⟨rounds, hmeets⟩
    exact not_replyMeets_buy rounds env s c hmeets

/-- Eve asks what is up, and is told of an error; she wows a book that exists, and the handler
reads the name of a user that does not; she buys it, and is told of an error. -/
theorem replies_not_meet :
    (¬ ∃ rounds, ReplyMeets (whatsupPurpose rounds eveSession smallSite ⟨whatsup, [], []⟩)
        (inputWhatsup rounds eveSession smallSite ⟨whatsup, [], []⟩)) ∧
      (inputWow 0 eveSession smallSite ⟨wow, [], [dune]⟩).result.map Answer.rtnMsg = none ∧
      (inputBuy 0 eveSession smallSite ⟨buy, [], [dune]⟩).result.map Answer.rtnMsg =
        some (some Brief.systemError) ∧
      (¬ ∃ rounds, ReplyMeets (markPurpose rounds eveSession smallSite ⟨wow, [], [dune]⟩ .wow)
        (inputWow rounds eveSession smallSite ⟨wow, [], [dune]⟩)) ∧
      ¬ ∃ rounds, ReplyMeets (markPurpose rounds eveSession smallSite ⟨buy, [], [dune]⟩ .buy)
        (inputBuy rounds eveSession smallSite ⟨buy, [], [dune]⟩) := by
  refine ⟨?_, by decide, by decide, ?_, ?_⟩
  · rintro ⟨rounds, hmeets⟩
    refine absurd hmeets (not_replyMeets (whatsupBody_misses ?_))
    rintro ⟨-, hfriend, -⟩
    cases hfriend
  · rintro ⟨rounds, hmeets⟩
    exact not_replyMeets_wow _ _ _ _ hmeets
  · rintro ⟨rounds, hmeets⟩
    exact not_replyMeets_buy _ _ _ _ hmeets

end MorningProjects.ELibrary
