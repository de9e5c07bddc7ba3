import MorningProjects.ELibrary.Keeping

/-!
# Runs of sessions

Whatever the sessions call, in any order, no user and no book is lost, and no call writes the
record or the history of a user it does not act for.
-/
namespace MorningProjects.ELibrary
open Library

/-! ### Whose record a call writes -/

/-- The user a call acts for, if it writes anything. -/
def SessionCall.actsFor (g : Server) : SessionCall → Option ℕ
  | .addUser _ _ newUser _ _ => newUser
  | .add env _ _ | .rm env _ | .buy _ env _ => (getUserInfo g env.userName none).join
  | .search _ _ | .whatsup _ _ _ | .wow _ _ _ => none
  | .msgSend userName _ _ _ _ _ _ | .msgRead userName _ _ => (getUserInfo g userName none).join
  | .exchange payload _ _ =>
    (decodeMsg payload).bind fun event => (getUserInfo g event.username none).join

structure SiteServer.SameFor (u : ℕ) (s s' : SiteServer) : Prop where
  user : s'.acties.server.user u = s.acties.server.user u
  activity : s'.acties.activity u = s.acties.activity u
  numActy : s'.acties.numActy u = s.acties.numActy u

/-- No user but the host has another record or history. -/
def SiteServer.Only (host : ℕ) (s s' : SiteServer) : Prop := ∀ u ≠ host, s.SameFor u s'

section Writes

variable {host : ℕ} {s s' s'' : SiteServer} {g g' : Server}

theorem SiteServer.SameFor.refl (u : ℕ) (s : SiteServer) : s.SameFor u s := ⟨rfl, rfl, rfl⟩

theorem SiteServer.SameFor.trans {u : ℕ} (h : s.SameFor u s') (h' : s'.SameFor u s'') :
    s.SameFor u s'' :=
  ⟨h'.user.trans h.user, h'.activity.trans h.activity, h'.numActy.trans h.numActy⟩

theorem withServer_only (hg : ∀ u ≠ host, g.user u = s.acties.server.user u) :
    s.Only host (s.withServer g) := fun u hu => ⟨hg u hu, rfl, rfl⟩

theorem siteStep_server (s : SiteServer) (c : ActyCall) :
    (siteStep s c).acties.server = s.acties.server := actyStep_server s.acties c

theorem addUserActy_only (s : ActyServer) (host : ℕ) (filter : ActyFilter) (name : CString)
    (input : MarkInput) : (addUserActy s host filter name input).2.server = s.server ∧
      ∀ u ≠ host, (addUserActy s host filter name input).2.activity u = s.activity u ∧
        (addUserActy s host filter name input).2.numActy u = s.numActy u := by
  rw [addUserActy]
  split_ifs
  · exact ⟨rfl, fun u hu => ⟨Function.update_of_ne hu .., Function.update_of_ne hu ..⟩⟩
  · exact ⟨rfl, fun u _ => ⟨rfl, rfl⟩⟩

theorem siteStep_only (s : SiteServer) (c : ActyCall) : s.Only c.host (siteStep s c) := by
  intro u hu
  obtain ⟨-, hothers⟩ := addUserActy_only s.acties c.host c.filter c.name c.input
  exact ⟨by rw [siteStep_server], (hothers u hu).1, (hothers u hu).2⟩

theorem SiteServer.Only.trans (h : s.Only host s') (h' : s'.Only host s'') : s.Only host s'' :=
  fun u hu => (h u hu).trans (h' u hu)

/-! ### Calls that record an activity -/

theorem siteAddUser_writes {layout : UserLayout} {userName email : CString} {newUser : Option ℕ}
    {usernode : Bool} {input : MarkInput} {status : SystemStatus}
    (h : siteAddUser layout s userName email newUser usernode input = some (status, s')) :
    (∃ status', addUser layout s.acties.server userName email
      ⟨newUser, usernode, input.acty⟩ = some (status', s'.acties.server)) ∧
      ∀ u, newUser ≠ some u → s.SameFor u s' := by
  obtain ⟨found, hfound, h⟩ := Option.bind_eq_some_iff.mp h
  obtain ⟨⟨status', g⟩, hadd, h⟩ := Option.bind_eq_some_iff.mp h
  have hg : ∀ u, newUser ≠ some u → g.user u = s.acties.server.user u := by
    intro u hu
    rcases addUser_cases hadd with rfl | ⟨v, hv, -, -, huser⟩
    · rfl
    · have huv : u ≠ v := by
        rintro rfl
        exact hu hv
      rw [huser, Function.update_of_ne huv]
  cases found with
  | some v =>
    cases h
    exact ⟨⟨_, hadd⟩, fun u hu => ⟨hg u hu, rfl, rfl⟩⟩
  | none =>
    cases newUser with
    | none =>
      cases h
      exact ⟨⟨_, hadd⟩, fun u hu => ⟨hg u hu, rfl, rfl⟩⟩
    | some v =>
      dsimp only at h
      have hnew : ∀ u, some v ≠ some u → s.SameFor u { s with acties :=
          { server := g
            activity := Function.update s.acties.activity v []
            numActy := Function.update s.acties.numActy v 0 } } := by
        intro u hu
        have huv : u ≠ v := fun heq => hu (congrArg some heq.symm)
        exact ⟨hg u hu, Function.update_of_ne huv .., Function.update_of_ne huv ..⟩
      split_ifs at h
      · cases h
        refine ⟨⟨status, by rw [siteStep_server]; exact hadd⟩, fun u hu => ?_⟩
        exact (hnew u hu).trans (siteStep_only _ _ u fun heq => hu (congrArg some heq.symm))
      · cases h
        exact ⟨⟨_, hadd⟩, hnew⟩

theorem siteAddFriend_writes {friend : ℕ} {newNode : Bool} {input : MarkInput}
    {status : SystemStatus}
    (h : siteAddFriend s host friend newNode input = some (status, s')) :
    (∃ status', addFriend s.acties.server host friend newNode =
      some (status', s'.acties.server)) ∧ s.Only host s' := by
  obtain ⟨⟨status', g⟩, hadd, h⟩ := Option.bind_eq_some_iff.mp h
  have hg : s.Only host (s.withServer g) := by
    apply withServer_only
    intro u hu
    rcases addFriend_writes hadd with rfl | ⟨friends, numFrds, -, rfl⟩
    · rfl
    · exact setUser_user_of_ne _ hu _
  dsimp only at h
  split_ifs at h
  · cases h
    refine ⟨⟨status, by rw [siteStep_server]; exact hadd⟩, ?_⟩
    exact hg.trans (siteStep_only _ ⟨host, .addingFrd, _, input⟩)
  · cases h
    exact ⟨⟨_, hadd⟩, hg⟩

theorem addPrivate_only {b : ℕ} (h : addPrivate g host b = some g') :
    ∀ u ≠ host, g'.user u = g.user u := by
  intro u hu
  rw [addPrivate] at h
  split_ifs at h
  · cases h
    exact setUser_user_of_ne _ hu _
  · cases hbooks : (g.user host).books with
    | nil =>
      rw [hbooks] at h
      cases h
    | cons first rest =>
      rw [hbooks] at h
      cases h
      exact setUser_user_of_ne _ hu _

theorem addPublic_user {b : ℕ} (h : addPublic g b = some g') : g'.user = g.user := by
  rw [addPublic] at h
  split_ifs at h
  · cases h
    rfl
  · cases h
    rfl

theorem addBook_only {bookName : CString} {bookDesp : Option CString} {bookGroup : Option ℕ}
    {malloc : BookMallocs} {status : SystemStatus}
    (h : addBook g (some host) (some bookName) bookDesp bookGroup malloc = some (status, g')) :
    ∀ u ≠ host, g'.user u = g.user u := by
  intro u hu
  obtain ⟨found, -, h⟩ := Option.bind_eq_some_iff.mp h
  cases found with
  | some b =>
    cases h
    rfl
  | none =>
    cases hb : malloc.bookAdded with
    | none =>
      rw [hb] at h
      dsimp only at h
      split_ifs at h
      cases h
      rfl
    | some b =>
      rw [hb] at h
      dsimp only at h
      by_cases hlong : maxBookNameLength < bookName.strlen
      · rw [if_pos hlong] at h
        cases h
      rw [if_neg hlong] at h
      obtain ⟨g₂, hprivate, h⟩ := Option.bind_eq_some_iff.mp h
      obtain ⟨g₃, hpublic, h⟩ := Option.map_eq_some_iff.mp h
      cases h
      have h₂ : g₂.user u = g.user u := by
        split_ifs at hprivate
        · exact addPrivate_only hprivate u hu
        · cases hprivate
          rfl
      split_ifs at hpublic
      · rw [addPublic_user hpublic, h₂]
      · cases hpublic
        exact h₂

theorem siteAddBook_writes {bookName : CString} {bookDesp : Option CString}
    {bookGroup : Option ℕ} {malloc : BookMallocs} {input : MarkInput} {status : SystemStatus}
    (h : siteAddBook s host bookName bookDesp bookGroup malloc input = some (status, s')) :
    (∃ status', addBook s.acties.server (some host) (some bookName) bookDesp bookGroup malloc =
      some (status', s'.acties.server)) ∧ s.Only host s' := by
  obtain ⟨found, -, h⟩ := Option.bind_eq_some_iff.mp h
  obtain ⟨⟨status', g⟩, hadd, h⟩ := Option.bind_eq_some_iff.mp h
  have hg : s.Only host (s.withServer g) := withServer_only (addBook_only hadd)
  dsimp only at h
  split_ifs at h
  · cases h
    refine ⟨⟨status, by rw [siteStep_server]; exact hadd⟩, ?_⟩
    exact hg.trans (siteStep_only _ ⟨host, .addingBook, bookName, input⟩)
  · cases h
    exact ⟨⟨_, hadd⟩, hg⟩

/-! ### Books that are removed or marked -/

theorem rmBook_only {bookName : CString} {status : SystemStatus}
    (h : rmBook g (some host) (some bookName) = some (status, g')) :
    ∀ u ≠ host, g'.user u = g.user u := by
  intro u hu
  obtain ⟨found, -, h⟩ := Option.bind_eq_some_iff.mp h
  cases found with
  | none =>
    cases h
    rfl
  | some b =>
    obtain ⟨g₂, huncollect, h⟩ := Option.bind_eq_some_iff.mp h
    obtain ⟨books, -, h⟩ := Option.map_eq_some_iff.mp h
    cases h
    have h₂ : g₂.user = g.user := by
      obtain ⟨info, -, huncollect⟩ := Option.bind_eq_some_iff.mp huncollect
      dsimp only at huncollect
      split_ifs at huncollect
      · obtain ⟨head, -, rfl⟩ := Option.map_eq_some_iff.mp huncollect
        rfl
      · cases huncollect
        rfl
    rw [setUser_user_of_ne _ hu, h₂]

theorem markSite_writes {m : Mark} {book : ℕ} {input : MarkInput} {status : SystemStatus}
    (h : markSite m s host book input = some (status, s')) :
    (s'.acties.server = s.acties.server ∨ ∃ info num who,
      s.acties.server.book book = some info ∧ m.who info <:+ who ∧
        s'.acties.server = s.acties.server.setBook book (m.set info num who)) ∧
      s.Only host s' := by
  obtain ⟨info, hinfo, h⟩ := Option.bind_eq_some_iff.mp h
  obtain ⟨⟨status', acties⟩, hmark, h⟩ := Option.bind_eq_some_iff.mp h
  cases h
  obtain ⟨info', hinfo', hmark⟩ := Option.bind_eq_some_iff.mp hmark
  obtain rfl : info = info' := Option.some.inj (hinfo.symm.trans hinfo')
  obtain ⟨owner, -, hmark⟩ := Option.bind_eq_some_iff.mp hmark
  dsimp only at hmark
  split_ifs at hmark
  · cases hmark
    exact ⟨.inl rfl, fun u _ => ⟨rfl, rfl, rfl⟩⟩
  · obtain rfl : _ = acties := congrArg Prod.snd (Option.some.inj hmark)
    refine ⟨.inr ⟨info, _, _, hinfo, List.suffix_cons .., (addUserActy_only ..).1⟩, ?_⟩
    intro u hu
    obtain ⟨hserver, hothers⟩ :=
      addUserActy_only { s.acties with server := _ } host m.filter _ input
    exact ⟨by rw [hserver]; rfl, (hothers u hu).1, (hothers u hu).2⟩
  · cases hmark
    exact ⟨.inr ⟨info, _, _, hinfo, List.suffix_refl _, rfl⟩, fun u _ => ⟨rfl, rfl, rfl⟩⟩

/-! ### The handlers -/

section Handlers

variable {env : Surroundings} {c : Command} {a : Answer} {o : Outcome}

theorem addBookBranch_writes {input : AddInput} {desp : Option CString} {group : Option ℕ}
    {rtnMsg : Option (List UInt8)}
    (h : addBookBranch s c input host desp group rtnMsg = some o) :
    ∃ bookName status,
      siteAddBook s host bookName desp group input.book input.acty = some (status, o.site) := by
  obtain ⟨bookName, -, h⟩ := Option.bind_eq_some_iff.mp h
  obtain ⟨⟨status, site⟩, hadd, h⟩ := Option.bind_eq_some_iff.mp h
  cases h
  exact ⟨bookName, status, hadd⟩

theorem addBranch_writes {input : AddInput} (h : addBranch env s c input host = some o) :
    o.site = s ∨
      (∃ name friend status, getUserInfo s.acties.server name none = some (some friend) ∧
        siteAddFriend s host friend input.friendNode input.acty = some (status, o.site)) ∨
      ∃ bookName desp group status,
        siteAddBook s host bookName desp group input.book input.acty = some (status, o.site) := by
  have hbook : ∀ {desp : Option CString} {group : Option ℕ} {rtnMsg : Option (List UInt8)},
      addBookBranch s c input host desp group rtnMsg = some o → ∃ bookName desp group status,
        siteAddBook s host bookName desp group input.book input.acty = some (status, o.site) := by
    intro desp group rtnMsg h
    obtain ⟨bookName, status, hadd⟩ := addBookBranch_writes h
    exact ⟨bookName, desp, group, status, hadd⟩
  rw [addBranch] at h
  split_ifs at h
  · cases hparams : c.params with
    | nil =>
      rw [hparams] at h
      cases h
      exact .inl rfl
    | cons name rest =>
      rw [hparams] at h
      obtain ⟨found, hfound, h⟩ := Option.bind_eq_some_iff.mp h
      cases found with
      | none =>
        cases h
        exact .inl rfl
      | some friend =>
        obtain ⟨⟨status, site⟩, hadd, h⟩ := Option.bind_eq_some_iff.mp h
        cases h
        exact .inr (.inl ⟨name, friend, status, hfound, hadd⟩)
  · rcases hparams : c.params with _ | ⟨name, _ | ⟨desp, rest⟩⟩ <;> rw [hparams] at h
    · cases h
      exact .inl rfl
    · cases h
      exact .inl rfl
    · exact .inr (.inr (hbook h))
  · rcases hparams : c.params with _ | ⟨name, _ | ⟨group, rest⟩⟩ <;> rw [hparams] at h
    · cases h
      exact .inl rfl
    · cases h
      exact .inl rfl
    · exact .inr (.inr (hbook h))
  · exact .inr (.inr (hbook h))
  · cases h
    exact .inl rfl
  · cases h
    exact .inl rfl

theorem inputAdd_writes {input : AddInput} (h : inputAdd env s c input = some a) :
    a.site = s ∨ ∃ host, getUserInfo s.acties.server env.userName none = some (some host) ∧
      ∃ o, addBranch env s c input host = some o ∧ a.site = o.site := by
  obtain ⟨o, ho, rfl⟩ := Option.map_eq_some_iff.mp h
  split_ifs at ho
  · cases ho
    exact .inl rfl
  · obtain ⟨found, hfound, ho⟩ := Option.bind_eq_some_iff.mp ho
    cases found with
    | none =>
      cases ho
      exact .inl rfl
    | some host => exact .inr ⟨host, hfound, o, ho, rfl⟩

theorem inputRm_writes (h : inputRm env s c = some a) :
    a.site = s ∨ ∃ host target, getUserInfo s.acties.server env.userName none = some (some host) ∧
      ((∃ status g, rmBook s.acties.server (some host) (some target) = some (status, g) ∧
        a.site = s.withServer g) ∨
        a.site = s.withServer (rmFriend s.acties.server host target).2) := by
  obtain ⟨o, ho, rfl⟩ := Option.map_eq_some_iff.mp h
  cases hparams : c.params with
  | nil =>
    rw [hparams] at ho
    cases ho
    exact .inl rfl
  | cons target rest =>
    rw [hparams] at ho
    dsimp only at ho
    split_ifs at ho
    · cases ho
      exact .inl rfl
    · obtain ⟨found, hfound, ho⟩ := Option.bind_eq_some_iff.mp ho
      cases found with
      | none =>
        cases ho
        exact .inl rfl
      | some host =>
        change rmBranch env s c host target = some o at ho
        rw [rmBranch] at ho
        split_ifs at ho
        · obtain ⟨⟨status, g⟩, hrm, ho⟩ := Option.bind_eq_some_iff.mp ho
          cases ho
          exact .inr ⟨host, target, hfound, .inl ⟨status, g, hrm, rfl⟩⟩
        · cases ho
          exact .inr ⟨host, target, hfound, .inr rfl⟩
        · cases ho
          exact .inl rfl
        · cases ho
          exact .inl rfl

theorem inputSearch_site (h : inputSearch env s c = some a) : a.site = s := by
  obtain ⟨o, ho, rfl⟩ := Option.map_eq_some_iff.mp h
  cases hparams : c.params with
  | nil =>
    rw [hparams] at ho
    cases ho
    rfl
  | cons target rest =>
    rw [hparams] at ho
    dsimp only at ho
    split_ifs at ho
    · cases ho
      rfl
    · rw [searchBranch] at ho
      split_ifs at ho
      · obtain ⟨⟨result, found⟩, -, ho⟩ := Option.bind_eq_some_iff.mp ho
        cases ho
        rfl
      · obtain ⟨user, -, ho⟩ := Option.bind_eq_some_iff.mp ho
        cases ho
        rfl
      · cases ho
        rfl
      · cases ho
        rfl

theorem finish_site {l : Locals} (h : l.finish env = some a) : a.site = l.site := by
  obtain ⟨rtnMsg, -, rfl⟩ := Option.map_eq_some_iff.mp h
  rfl

theorem gives_finish {body : Traced Lookup Locals} {P : SiteServer → Prop}
    (h : body.Gives fun l => P l.site) :
    (body >>= fun l => Traced.ofOption (l.finish env)).Gives fun a => P a.site := by
  refine Traced.gives_bind h ?_
  intro l hl a ha
  rw [finish_site ha]
  exact hl

theorem whatsupBody_site {rounds : ℕ} :
    (whatsupBody rounds env s c).Gives fun l => l.site = s := by
  apply Traced.gives_bind_of_forall
  intro user _
  cases user with
  | none => exact Traced.gives_pure rfl
  | some host =>
    dsimp only
    split_ifs
    · apply Traced.gives_bind_of_forall
      intro r _
      exact Traced.gives_pure rfl
    · apply Traced.gives_bind_of_forall
      intro frdName _
      apply Traced.gives_bind_of_forall
      intro friend _
      cases friend with
      | none => exact Traced.gives_pure rfl
      | some friend =>
        apply Traced.gives_bind_of_forall
        intro r _
        exact Traced.gives_pure rfl
    · exact Traced.gives_pure rfl
    · exact Traced.gives_pure rfl

theorem friendBody_site (m : Mark) : (friendBody env s c m).Gives fun l => l.site = s := by
  apply Traced.gives_bind_of_forall
  intro name _
  apply Traced.gives_bind_of_forall
  intro user _
  cases user with
  | none => exact Traced.gives_pure rfl
  | some user =>
    apply Traced.gives_bind_of_forall
    intro r _
    dsimp only
    split_ifs
    · apply Traced.gives_bind_of_forall
      intro rtnMsg _
      exact Traced.gives_pure rfl
    · exact Traced.gives_pure rfl

theorem bookBody_site (m : Mark) : (bookBody env s c m).Gives fun l => l.site = s := by
  apply Traced.gives_bind_of_forall
  intro name _
  apply Traced.gives_bind_of_forall
  intro found _
  dsimp only
  split_ifs
  · apply Traced.gives_bind_of_forall
    intro book _
    split_ifs
    · apply Traced.gives_bind_of_forall
      intro rtnMsg _
      exact Traced.gives_pure rfl
    · exact Traced.gives_pure rfl
  · exact Traced.gives_pure rfl

theorem optionBody_site (m : Mark) : (optionBody env s c m).Gives fun l => l.site = s := by
  rw [optionBody]
  split_ifs
  · exact friendBody_site m
  · exact bookBody_site m
  · exact Traced.gives_pure rfl
  · exact Traced.gives_pure rfl

theorem noUser_site : (noUser env s).Gives fun l => l.site = s := by
  rw [noUser]
  split_ifs
  · exact Traced.gives_none rfl
  · exact Traced.gives_pure rfl

/-- `wow` with the name of a book comes to nothing, so that it never writes. -/
theorem wowBody_site {rounds : ℕ} : (wowBody rounds env s c).Gives fun l => l.site = s := by
  rw [wowBody]
  cases c.params with
  | nil =>
    apply Traced.gives_bind_of_forall
    intro rtnMsg _
    exact Traced.gives_pure rfl
  | cons param rest =>
    apply Traced.gives_bind_of_forall
    intro user _
    cases user with
    | some user => exact Traced.gives_none rfl
    | none => exact noUser_site

/-- `buy` writes nothing, or marks a book for the user. -/
theorem buyBody_site {rounds : ℕ} : (buyBody rounds env s c).Gives fun l => l.site = s ∨
    ∃ host book status, getUserInfo s.acties.server env.userName none = some (some host) ∧
      markSite .buy s host book env.mark = some (status, l.site) := by
  rw [buyBody]
  cases c.params with
  | nil =>
    apply Traced.gives_bind_of_forall
    intro rtnMsg _
    exact Traced.gives_pure (.inl rfl)
  | cons param rest =>
    apply Traced.gives_bind_of_forall
    intro user huser
    rw [lookUpUser_result] at huser
    cases user with
    | none => exact fun l hl => .inl (noUser_site l hl)
    | some host =>
      apply Traced.gives_bind_of_forall
      intro found _
      dsimp only
      split_ifs
      · apply Traced.gives_bind_of_forall
        intro book _
        apply Traced.gives_bind_of_forall
        intro marked hmarked
        obtain ⟨status, site⟩ := marked
        dsimp only
        split_ifs
        · exact Traced.gives_pure (.inr ⟨host, book, status, huser, hmarked⟩)
        · exact Traced.gives_pure (.inr ⟨host, book, status, huser, hmarked⟩)
      · exact Traced.gives_pure (.inl rfl)

end Handlers

/-! ### A call -/

section Call

variable {layout : UserLayout} {n : ℕ}

theorem inputWow_site {rounds : ℕ} {env : Surroundings} {c : Command} {a : Answer}
    (h : (inputWow rounds env s c).result = some a) : a.site = s := by
  rw [inputWow] at h
  split_ifs at h
  · exact gives_finish (P := fun t => t = s) wowBody_site a h
  · exact gives_finish (P := fun t => t = s) (optionBody_site .wow) a h

theorem inputBuy_writes {rounds : ℕ} {env : Surroundings} {c : Command} {a : Answer}
    (h : (inputBuy rounds env s c).result = some a) : a.site = s ∨
      ∃ host book status, getUserInfo s.acties.server env.userName none = some (some host) ∧
        markSite .buy s host book env.mark = some (status, a.site) := by
  rw [inputBuy] at h
  split_ifs at h
  · exact gives_finish (P := fun t => t = s ∨ ∃ host book status,
      getUserInfo s.acties.server env.userName none = some (some host) ∧
        markSite .buy s host book env.mark = some (status, t)) buyBody_site a h
  · exact .inl (gives_finish (P := fun t => t = s) (optionBody_site .buy) a h)

theorem ne_of_actsFor {g : Server} {name : CString} {u : ℕ}
    (hfound : getUserInfo g name none = some (some host))
    (hu : (getUserInfo g name none).join ≠ some u) : u ≠ host := by
  rintro rfl
  rw [hfound] at hu
  exact hu rfl

theorem setBox_withServer_only (s : SiteServer) (host : ℕ) (box : MsgBox) :
    s.Only host (s.withServer (s.acties.server.setBox host box)) :=
  withServer_only fun _ hu => setBox_user_of_ne _ hu box

/-- A call that does not act for a user leaves the user's record and history as they are. -/
theorem sessionStep_sameFor {call : SessionCall} {u : ℕ}
    (hu : call.actsFor s.acties.server ≠ some u)
    (h : sessionStep layout s call = some s') : s.SameFor u s' := by
  cases call with
  | addUser userName email newUser usernode input =>
    obtain ⟨⟨status, s'⟩, hadd, rfl⟩ := Option.map_eq_some_iff.mp h
    exact (siteAddUser_writes hadd).2 u hu
  | add env c input =>
    obtain ⟨a, ha, rfl⟩ := Option.map_eq_some_iff.mp h
    rcases inputAdd_writes ha with heq | ⟨host, hhost, o, ho, heq⟩ <;> rw [heq]
    · exact .refl u s
    · have hne := ne_of_actsFor hhost hu
      rcases addBranch_writes ho with heq | ⟨_, _, _, _, hadd⟩ | ⟨_, _, _, _, hadd⟩
      · rw [heq]
        exact .refl u s
      · exact (siteAddFriend_writes hadd).2 u hne
      · exact (siteAddBook_writes hadd).2 u hne
  | rm env c =>
    obtain ⟨a, ha, rfl⟩ := Option.map_eq_some_iff.mp h
    rcases inputRm_writes ha with heq | ⟨host, target, hhost, ⟨status, g, hrm, heq⟩ | heq⟩ <;>
      rw [heq]
    · exact .refl u s
    · exact withServer_only (rmBook_only hrm) u (ne_of_actsFor hhost hu)
    · refine (withServer_only ?_ : s.Only host _) u (ne_of_actsFor hhost hu)
      intro v hv
      rcases rmFriend_writes s.acties.server host target with hrm | ⟨friends, numFrds, -, hrm⟩ <;>
        rw [hrm]
      exact setUser_user_of_ne _ hv _
  | search env c =>
    obtain ⟨a, ha, rfl⟩ := Option.map_eq_some_iff.mp h
    rw [inputSearch_site ha]
    exact .refl u s
  | whatsup rounds env c =>
    obtain ⟨a, ha, rfl⟩ := Option.map_eq_some_iff.mp h
    rw [gives_finish (P := fun t => t = s) whatsupBody_site a ha]
    exact .refl u s
  | wow rounds env c =>
    obtain ⟨a, ha, rfl⟩ := Option.map_eq_some_iff.mp h
    rw [inputWow_site ha]
    exact .refl u s
  | buy rounds env c =>
    obtain ⟨a, ha, rfl⟩ := Option.map_eq_some_iff.mp h
    rcases inputBuy_writes ha with heq | ⟨host, book, status, hhost, hmark⟩
    · rw [heq]
      exact .refl u s
    · exact (markSite_writes hmark).2 u (ne_of_actsFor hhost hu)
  | msgSend userName frdName msg ready now malloc notified =>
    obtain ⟨g, hg, rfl⟩ := Option.map_eq_some_iff.mp h
    obtain ⟨found, hfound, hg⟩ := Option.bind_eq_some_iff.mp hg
    cases found with
    | none =>
      cases hg
      exact .refl u s
    | some host =>
      obtain ⟨⟨status, g⟩, hsend, hg⟩ := Option.bind_eq_some_iff.mp hg
      cases hg
      rcases sendReceiveMsg_writes hsend with rfl | ⟨box, rfl⟩
      · exact .refl u s
      · exact setBox_withServer_only s host box u (ne_of_actsFor hfound hu)
  | msgRead userName params malloc =>
    obtain ⟨⟨reply, g⟩, hg, rfl⟩ := Option.map_eq_some_iff.mp h
    rcases inputMsg_writes hg with rfl | ⟨host, box, hfound, rfl⟩
    · exact .refl u s
    · exact setBox_withServer_only s host box u (ne_of_actsFor hfound hu)
  | exchange payload now malloc =>
    obtain ⟨g, hg, rfl⟩ := Option.map_eq_some_iff.mp h
    rcases exchangeMsg_writes hg with rfl | ⟨event, host, box, hevent, hfound, rfl⟩
    · exact .refl u s
    · refine setBox_withServer_only s host box u (ne_of_actsFor hfound ?_)
      rw [SessionCall.actsFor, hevent] at hu
      exact hu

/-- A mark is put on a book that keeps its name, its owner and its count. -/
theorem Server.Kept.markSite (hk : s.acties.server.Kept n) {m : Mark} {book : ℕ}
    {input : MarkInput} {status : SystemStatus}
    (h : markSite m s host book input = some (status, s')) :
    s'.acties.server.Kept n ∧ Keeps s.acties.server s'.acties.server := by
  rcases (markSite_writes h).1 with heq | ⟨info, num, who, hinfo, hwho, heq⟩ <;> rw [heq]
  · exact ⟨hk, Keeps.refl _⟩
  · cases m with
    | wow => exact hk.setBook hinfo rfl rfl ⟨rfl, hwho, List.suffix_refl _, .inl rfl⟩
    | buy => exact hk.setBook hinfo rfl rfl ⟨rfl, List.suffix_refl _, hwho, .inl rfl⟩

/-- A call keeps users and books, and makes one book at most. -/
theorem sessionStep_kept {call : SessionCall} (hk : s.acties.server.Kept n) (hn : n + 1 < 2 ^ 32)
    (hpermit : s.Permits call) (h : sessionStep layout s call = some s') :
    s'.acties.server.Kept (n + 1) ∧ Keeps s.acties.server s'.acties.server := by
  have hmono : ∀ {g : Server}, g.Kept n ∧ Keeps s.acties.server g →
      g.Kept (n + 1) ∧ Keeps s.acties.server g := fun hg => ⟨hg.1.mono (Nat.le_succ n), hg.2⟩
  have hself : s.acties.server.Kept n ∧ Keeps s.acties.server s.acties.server :=
    ⟨hk, Keeps.refl _⟩
  cases call with
  | addUser userName email newUser usernode input =>
    obtain ⟨⟨status, s'⟩, hadd, rfl⟩ := Option.map_eq_some_iff.mp h
    obtain ⟨⟨status', hserver⟩, -⟩ := siteAddUser_writes hadd
    have hfresh : ∀ u, (⟨newUser, usernode, input.acty⟩ : UserMallocs).newUser = some u →
        u ∉ s.acties.server.userList := hpermit
    exact hmono (hk.addUser hfresh hserver)
  | add env c input =>
    obtain ⟨a, ha, rfl⟩ := Option.map_eq_some_iff.mp h
    rcases inputAdd_writes ha with heq | ⟨host, hhost, o, ho, heq⟩ <;> rw [heq]
    · exact hmono hself
    · rcases addBranch_writes ho with heq | ⟨name, friend, status, hfriend, hadd⟩ |
        ⟨bookName, desp, group, status, hadd⟩
      · rw [heq]
        exact hmono hself
      · obtain ⟨⟨status', hserver⟩, -⟩ := siteAddFriend_writes hadd
        exact hmono (hk.addFriend (getUserInfo_mem hfriend) hserver)
      · obtain ⟨⟨status', hserver⟩, -⟩ := siteAddBook_writes hadd
        exact hk.addBook hn (getUserInfo_mem hhost) hpermit hserver
  | rm env c =>
    obtain ⟨a, ha, rfl⟩ := Option.map_eq_some_iff.mp h
    rcases inputRm_writes ha with heq | ⟨host, target, -, ⟨status, g, hrm, heq⟩ | heq⟩ <;>
      rw [heq]
    · exact hmono hself
    · exact hmono (hk.rmBook hrm)
    · exact hmono (hk.rmFriend host target)
  | search env c =>
    obtain ⟨a, ha, rfl⟩ := Option.map_eq_some_iff.mp h
    rw [inputSearch_site ha]
    exact hmono hself
  | whatsup rounds env c =>
    obtain ⟨a, ha, rfl⟩ := Option.map_eq_some_iff.mp h
    rw [gives_finish (P := fun t => t = s) whatsupBody_site a ha]
    exact hmono hself
  | wow rounds env c =>
    obtain ⟨a, ha, rfl⟩ := Option.map_eq_some_iff.mp h
    rw [inputWow_site ha]
    exact hmono hself
  | buy rounds env c =>
    obtain ⟨a, ha, rfl⟩ := Option.map_eq_some_iff.mp h
    rcases inputBuy_writes ha with heq | ⟨host, book, status, -, hmark⟩
    · rw [heq]
      exact hmono hself
    · exact hmono (hk.markSite hmark)
  | msgSend userName frdName msg ready now malloc notified =>
    obtain ⟨g, hg, rfl⟩ := Option.map_eq_some_iff.mp h
    obtain ⟨found, hfound, hg⟩ := Option.bind_eq_some_iff.mp hg
    cases found with
    | none =>
      cases hg
      exact hmono hself
    | some host =>
      obtain ⟨⟨status, g⟩, hsend, hg⟩ := Option.bind_eq_some_iff.mp hg
      cases hg
      rcases sendReceiveMsg_writes hsend with rfl | ⟨box, rfl⟩
      · exact hmono hself
      · exact hmono (hk.setBox host box)
  | msgRead userName params malloc =>
    obtain ⟨⟨reply, g⟩, hg, rfl⟩ := Option.map_eq_some_iff.mp h
    rcases inputMsg_writes hg with rfl | ⟨host, box, -, rfl⟩
    · exact hmono hself
    · exact hmono (hk.setBox host box)
  | exchange payload now malloc =>
    obtain ⟨g, hg, rfl⟩ := Option.map_eq_some_iff.mp h
    rcases exchangeMsg_writes hg with rfl | ⟨event, host, box, -, -, rfl⟩
    · exact hmono hself
    · exact hmono (hk.setBox host box)

end Call

end Writes

/-! ### Runs -/

section Run

variable {layout : UserLayout} {s s' : SiteServer} {calls later : List SessionCall}

/-- Two runs in a row: what holds after the first, and what the second one keeps. -/
theorem runs_kept (hroom : calls.length + later.length < 2 ^ 32)
    (hcalls : Along (sessionStep layout) SiteServer.Permits .init calls)
    (hrun : runFrom (sessionStep layout) .init calls = some s)
    (hlater : Along (sessionStep layout) SiteServer.Permits s later)
    (hrun' : runFrom (sessionStep layout) s later = some s') :
    s.acties.server.Kept calls.length ∧
      s'.acties.server.Kept (calls.length + later.length) ∧
      Keeps s.acties.server s'.acties.server := by
  have hstep : ∀ n (t : SiteServer) call t', n < 2 ^ 32 - 1 → t.acties.server.Kept n →
      t.Permits call → sessionStep layout t call = some t' →
        t'.acties.server.Kept (n + 1) ∧ Keeps t.acties.server t'.acties.server :=
    fun n t call t' hn hk => sessionStep_kept hk (by omega)
  have hs : s.acties.server.Kept (0 + calls.length) :=
    runFrom_counted (fun n t call t' hn hk hpermit h => (hstep n t call t' hn hk hpermit h).1)
      (by omega) kept_init hcalls hrun
  rw [Nat.zero_add] at hs
  have hstep' : ∀ n (t : SiteServer) call t', n < 2 ^ 32 - 1 →
      t.acties.server.Kept n ∧ Keeps s.acties.server t.acties.server → t.Permits call →
        sessionStep layout t call = some t' →
          t'.acties.server.Kept (n + 1) ∧ Keeps s.acties.server t'.acties.server := by
    rintro n t call t' hn ⟨hk, hkeeps⟩ hpermit h
    obtain ⟨hk', hkeeps'⟩ := hstep n t call t' hn hk hpermit h
    exact ⟨hk', hkeeps.trans hkeeps'⟩
  exact ⟨hs, runFrom_counted hstep' (by omega) ⟨hs, Keeps.refl _⟩ hlater hrun'⟩

/-- After any calls the library is sound, and what it has at one time it has at every later one:
users stay registered, books stay in the list with their names and marks, a book that was removed
is only left without an owner, and a name that finds a user or a book finds the same one. -/
theorem sessions_keep (hroom : calls.length + later.length < 2 ^ 32)
    (hcalls : Along (sessionStep layout) SiteServer.Permits .init calls)
    (hrun : runFrom (sessionStep layout) .init calls = some s)
    (hlater : Along (sessionStep layout) SiteServer.Permits s later)
    (hrun' : runFrom (sessionStep layout) s later = some s') :
    s'.acties.server.Kept (calls.length + later.length) ∧
      Keeps s.acties.server s'.acties.server ∧
      (∀ name u, getUserInfo s.acties.server name none = some (some u) →
        getUserInfo s'.acties.server name none = some (some u)) ∧
      ∀ name b, getBookByName s.acties.server none name = some (some b) →
        getBookByName s'.acties.server none name = some (some b) := by
  obtain ⟨-, hk, hkeeps⟩ := runs_kept hroom hcalls hrun hlater hrun'
  exact ⟨hk, hkeeps, fun name u => hkeeps.getUserInfo, fun name b => hkeeps.getBookByName⟩

def evesCalls : List SessionCall :=
  [.addUser eveSession.userName .empty (some 1) true eveSession.mark,
    .addUser alex .empty (some 0) true eveSession.mark,
    .add eveSession ⟨add, word ['b'], [dune]⟩ ⟨true, ⟨some 0, true, true⟩, none, eveSession.mark⟩]

def evesRemoval : List SessionCall := [.rm eveSession ⟨rm, word ['b'], [dune]⟩]

theorem evesCalls_isSome : (runFrom (sessionStep smallLayout) .init evesCalls).isSome = true := by
  decide

def evesSite : SiteServer :=
  (runFrom (sessionStep smallLayout) .init evesCalls).get evesCalls_isSome

/-- The book that Eve removed is still found. -/
theorem sessions_keep_example :
    ∃ s', runFrom (sessionStep smallLayout) evesSite evesRemoval = some s' ∧
      getBookByName s'.acties.server none dune = some (some 0) := by
  have hrun : (runFrom (sessionStep smallLayout) evesSite evesRemoval).isSome = true := by decide
  obtain ⟨s', hs'⟩ := Option.isSome_iff_exists.mp hrun
  have hcalls : Along (sessionStep smallLayout) SiteServer.Permits .init evesCalls := by decide
  have hlater : Along (sessionStep smallLayout) SiteServer.Permits evesSite evesRemoval := by decide
  obtain ⟨-, -, -, hbook⟩ := sessions_keep (by decide) hcalls (Option.some_get _).symm hlater hs'
  exact ⟨s', hs', hbook dune 0 (by decide)⟩

/-- Calls that do not act for a user leave the user as it is: the record, with its shelf, friends
and box, the history, and the books on the shelf, which stay the user's own. -/
theorem sessions_apart {u : ℕ} (hroom : calls.length + later.length < 2 ^ 32)
    (hcalls : Along (sessionStep layout) SiteServer.Permits .init calls)
    (hrun : runFrom (sessionStep layout) .init calls = some s)
    (hlater : Along (sessionStep layout)
      (fun t call => t.Permits call ∧ call.actsFor t.acties.server ≠ some u) s later)
    (hrun' : runFrom (sessionStep layout) s later = some s') :
    s.SameFor u s' ∧ ∀ b ∈ (s.acties.server.user u).books, ∃ info info',
      s.acties.server.book b = some info ∧ s'.acties.server.book b = some info' ∧
        info'.owner = some u ∧ info.Later info' := by
  have hpermits : Along (sessionStep layout) SiteServer.Permits s later :=
    hlater.mono fun _ _ hP => hP.1
  obtain ⟨hk, hk', hkeeps⟩ := runs_kept hroom hcalls hrun hpermits hrun'
  have hsame : s.SameFor u s' := by
    have hstep : ∀ t call t', s.SameFor u t →
        (t.Permits call ∧ call.actsFor t.acties.server ≠ some u) →
          sessionStep layout t call = some t' → s.SameFor u t' :=
      fun t call t' ht hP h => ht.trans (sessionStep_sameFor hP.2 h)
    exact runFrom_invariant hstep (.refl u s) hlater hrun'
  refine ⟨hsame, ?_⟩
  intro b hb
  obtain ⟨info, hinfo, -⟩ := hk.shelf u b hb
  obtain ⟨info', hinfo', hown⟩ := hk'.shelf u b (by rwa [hsame.user])
  obtain ⟨info'', hinfo'', hlater''⟩ := hkeeps.book b info hinfo
  obtain rfl : info' = info'' := Option.some.inj (hinfo'.symm.trans hinfo'')
  exact ⟨info, info', hinfo, hinfo', hown, hlater''⟩

/-- Alex is as before. -/
theorem sessions_apart_example :
    ∃ s', runFrom (sessionStep smallLayout) evesSite evesRemoval = some s' ∧
      evesSite.SameFor 0 s' := by
  have hrun : (runFrom (sessionStep smallLayout) evesSite evesRemoval).isSome = true := by decide
  obtain ⟨s', hs'⟩ := Option.isSome_iff_exists.mp hrun
  have hcalls : Along (sessionStep smallLayout) SiteServer.Permits .init evesCalls := by decide
  have hlater : Along (sessionStep smallLayout)
      (fun t call => t.Permits call ∧ call.actsFor t.acties.server ≠ some 0) evesSite
      evesRemoval := by decide
  exact ⟨s', hs', (sessions_apart (by decide) hcalls (Option.some_get _).symm hlater hs').1⟩

end Run

end MorningProjects.ELibrary
