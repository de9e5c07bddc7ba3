import MorningProjects.ELibrary.Session

/-!
# What the library keeps

`countCollected` starts at 0 and is only counted down, once, when the owner removes the book from
the shelf: then it is not 0, and the book stays in the library without an owner. So no book is
ever freed, whatever the sessions do, and no pointer of a shelf, a list of friends or a book is
left dangling.
-/
namespace MorningProjects.ELibrary
open Library

/-! ### The invariant -/

/-- What holds of the server after calls that have made at most `n` books. -/
structure Server.Kept (n : ℕ) (g : Server) : Prop where
  friends : ∀ u, ∀ f ∈ (g.user u).friends, f ∈ g.userList
  owner : ∀ b info o, g.book b = some info → info.owner = some o → o ∈ g.userList
  counted : ∀ b info, g.book b = some info →
    info.countCollected = if info.owner = none then -1 else 0
  shelf : ∀ u, ∀ b ∈ (g.user u).books, ∃ info, g.book b = some info ∧ info.owner = some u
  nodup : ∀ u, (g.user u).books.Nodup
  few : ∀ u, (g.user u).books.length ≤ 2
  listed : ∀ b ∈ g.bookTotal.head, (g.book b).isSome
  once : g.bookTotal.head.Nodup
  tail : g.bookTotal.tail = g.bookTotal.head.getLast?
  total : g.bookTotal.numBooks.toNat = g.bookTotal.head.length
  bound : g.bookTotal.head.length ≤ n

theorem kept_init : Server.init.Kept 0 := by
  constructor
  · intro u f hf
    cases hf
  · intro b info o hb
    cases hb
  · intro b info hb
    cases hb
  · intro u b hb
    cases hb
  · intro u
    exact List.nodup_nil
  · intro u
    exact Nat.zero_le 2
  · intro b hb
    cases hb
  · exact List.nodup_nil
  · rfl
  · rfl
  · exact Nat.le_refl 0

/-- A book later on: it has its name, what was wowed and bought stays on record, and the owner is
the same or has taken it off the shelf. -/
structure BookInfo.Later (info info' : BookInfo) : Prop where
  name : info'.name = info.name
  whoWowed : info.whoWowed <:+ info'.whoWowed
  whoBuyed : info.whoBuyed <:+ info'.whoBuyed
  owner : info'.owner = info.owner ∨ info'.owner = none

theorem BookInfo.Later.refl (info : BookInfo) : info.Later info :=
  ⟨rfl, List.suffix_refl _, List.suffix_refl _, .inl rfl⟩

theorem BookInfo.Later.trans {info info' info'' : BookInfo} (h : info.Later info')
    (h' : info'.Later info'') : info.Later info'' := by
  refine ⟨h'.name.trans h.name, h.whoWowed.trans h'.whoWowed, h.whoBuyed.trans h'.whoBuyed, ?_⟩
  rcases h'.owner with ho | ho
  · rw [ho]
    exact h.owner
  · exact .inr ho

/-- Users stay registered under their names, books stay in the library in their order, and no
record of a book is freed. -/
structure Keeps (g g' : Server) : Prop where
  userList : g.userList <+: g'.userList
  username : ∀ u ∈ g.userList, (g'.user u).username = (g.user u).username
  head : g.bookTotal.head <+: g'.bookTotal.head
  book : ∀ b info, g.book b = some info → ∃ info', g'.book b = some info' ∧ info.Later info'

theorem Keeps.refl (g : Server) : Keeps g g :=
  ⟨List.prefix_refl _, fun _ _ => rfl, List.prefix_refl _, fun _ info hb => ⟨info, hb, .refl info⟩⟩

theorem Keeps.trans {g g' g'' : Server} (h : Keeps g g') (h' : Keeps g' g'') : Keeps g g'' := by
  refine ⟨h.userList.trans h'.userList, ?_, h.head.trans h'.head, ?_⟩
  · intro u hu
    exact (h'.username u (h.userList.subset hu)).trans (h.username u hu)
  intro b info hb
  obtain ⟨info', hb', hlater⟩ := h.book b info hb
  obtain ⟨info'', hb'', hlater'⟩ := h'.book b info' hb'
  exact ⟨info'', hb'', hlater.trans hlater'⟩

section Steps

variable {n : ℕ} {g g' : Server}

theorem Server.Kept.mono {m : ℕ} (h : g.Kept n) (hm : n ≤ m) : g.Kept m :=
  { h with bound := h.bound.trans hm }

theorem getUserInfo_mem {username : CString} {u : ℕ}
    (h : getUserInfo g username none = some (some u)) : u ∈ g.userList := by
  rw [getUserInfo_eq] at h
  exact List.mem_of_find?_eq_some (Option.some.inj h)

/-- A record is written under the name it has, or is a new one. -/
theorem setUser_keeps {u : ℕ} {info : UserInfo}
    (hname : u ∈ g.userList → info.username = (g.user u).username) :
    Keeps g (g.setUser u info) := by
  refine ⟨List.prefix_refl _, ?_, List.prefix_refl _, fun _ info hb => ⟨info, hb, .refl info⟩⟩
  intro v hv
  by_cases hvu : v = u
  · subst hvu
    rw [setUser_user_self, hname hv]
  · rw [setUser_user_of_ne g hvu]

/-- A record is written that has no other books and registered friends. -/
theorem Server.Kept.setUser (h : g.Kept n) {u : ℕ} {info : UserInfo}
    (hbooks : info.books.Sublist (g.user u).books) (hfriends : ∀ f ∈ info.friends, f ∈ g.userList) :
    (g.setUser u info).Kept n := by
  have huser : ∀ v, ((g.setUser u info).user v).books.Sublist (g.user v).books := by
    intro v
    by_cases hv : v = u
    · rw [hv, setUser_user_self]
      exact hbooks
    · rw [setUser_user_of_ne g hv]
  refine { h with friends := ?_, shelf := ?_, nodup := ?_, few := ?_ }
  · intro v f hf
    by_cases hv : v = u
    · rw [hv, setUser_user_self] at hf
      exact hfriends f hf
    · rw [setUser_user_of_ne g hv] at hf
      exact h.friends v f hf
  · intro v b hb
    exact h.shelf v b ((huser v).subset hb)
  · intro v
    exact (h.nodup v).sublist (huser v)
  · intro v
    exact (huser v).length_le.trans (h.few v)

theorem Server.Kept.setBox (h : g.Kept n) (u : ℕ) (box : MsgBox) :
    (g.setBox u box).Kept n ∧ Keeps g (g.setBox u box) :=
  ⟨h.setUser (List.Sublist.refl _) (h.friends u), setUser_keeps fun _ => rfl⟩

theorem Server.Kept.addUser (h : g.Kept n) {layout : UserLayout} {userName email : CString}
    {malloc : UserMallocs} (hfresh : ∀ u, malloc.newUser = some u → u ∉ g.userList)
    {status : SystemStatus}
    (hadd : addUser layout g userName email malloc = some (status, g')) :
    g'.Kept n ∧ Keeps g g' := by
  rcases addUser_writes hadd with rfl | ⟨u, hu, -, hg⟩
  · exact ⟨h, Keeps.refl _⟩
  · have hset : (g.setUser u (newUserInfo layout userName email)).Kept n :=
      h.setUser (List.nil_sublist _) (fun f hf => by cases hf)
    have hkeeps : Keeps g (g.setUser u (newUserInfo layout userName email)) :=
      setUser_keeps fun hin => (hfresh u hu hin).elim
    rcases hg with rfl | rfl
    · exact ⟨hset, hkeeps⟩
    · refine ⟨{ hset with friends := ?_, owner := ?_ }, { hkeeps with userList := ?_ }⟩
      · intro v f hf
        exact List.mem_append_left _ (hset.friends v f hf)
      · intro b info o hb ho
        exact List.mem_append_left _ (hset.owner b info o hb ho)
      · exact List.prefix_append _ _

/-! ### Friends and messages -/

theorem addFriend_writes {host friend : ℕ} {malloc : Bool} {status : SystemStatus}
    (h : addFriend g host friend malloc = some (status, g')) :
    g' = g ∨ ∃ friends numFrds, (∀ f ∈ friends, f = friend ∨ f ∈ (g.user host).friends) ∧
      g' = g.setUser host { g.user host with friends := friends, numFrds := numFrds } := by
  rw [addFriend] at h
  split_ifs at h
  · cases h
    exact .inl rfl
  · cases h
    refine .inr ⟨_, _, ?_, rfl⟩
    intro f hf
    rcases List.mem_append.mp hf with hf | hf
    · exact .inr hf
    · exact .inl (List.mem_singleton.mp hf)
  · cases h
    refine .inr ⟨_, _, ?_, rfl⟩
    intro f hf
    exact .inl (List.mem_singleton.mp hf)
  · cases h
    exact .inl rfl

theorem Server.Kept.addFriend (h : g.Kept n) {host friend : ℕ} (hfriend : friend ∈ g.userList)
    {malloc : Bool} {status : SystemStatus}
    (hadd : addFriend g host friend malloc = some (status, g')) : g'.Kept n ∧ Keeps g g' := by
  rcases addFriend_writes hadd with rfl | ⟨friends, numFrds, hfriends, rfl⟩
  · exact ⟨h, Keeps.refl g'⟩
  · refine ⟨h.setUser (List.Sublist.refl _) ?_, setUser_keeps fun _ => rfl⟩
    intro f hf
    rcases hfriends f hf with rfl | hf
    · exact hfriend
    · exact h.friends host f hf

theorem detechFrdFrom_subset (g : Server) (frdName : CString) (passed fs : List ℕ) :
    detechFrdFrom g frdName passed fs ⊆ passed ++ fs := by
  induction fs generalizing passed with
  | nil =>
    rw [detechFrdFrom, List.append_nil]
    exact List.Subset.refl passed
  | cons f fs ih =>
    rw [detechFrdFrom]
    split_ifs
    · exact List.nil_subset _
    · intro x hx
      rcases List.mem_append.mp hx with hx | hx
      · exact List.mem_append_left _ hx
      · exact List.mem_append_right _ (List.mem_cons_of_mem f hx)
    · intro x hx
      have hx' := ih (passed ++ [f]) hx
      rwa [List.append_assoc, List.singleton_append] at hx'

theorem rmFriend_writes (g : Server) (host : ℕ) (frdName : CString) :
    (rmFriend g host frdName).2 = g ∨ ∃ friends numFrds, friends ⊆ (g.user host).friends ∧
      (rmFriend g host frdName).2 =
        g.setUser host { g.user host with friends := friends, numFrds := numFrds } := by
  rw [rmFriend]
  cases getFrdInfo g host frdName with
  | none => exact .inl rfl
  | some f => exact .inr ⟨_, _, detechFrdFrom_subset g frdName [] _, rfl⟩

theorem Server.Kept.rmFriend (h : g.Kept n) (host : ℕ) (frdName : CString) :
    (rmFriend g host frdName).2.Kept n ∧ Keeps g (rmFriend g host frdName).2 := by
  rcases rmFriend_writes g host frdName with heq | ⟨friends, numFrds, hsub, heq⟩ <;> rw [heq]
  · exact ⟨h, Keeps.refl g⟩
  · exact ⟨h.setUser (List.Sublist.refl _) fun f hf => h.friends host f (hsub hf),
      setUser_keeps fun _ => rfl⟩

theorem sendReceiveMsg_writes {host : ℕ} {frdName msg : CString} {direction : MsgDirection}
    {ready : Bool} {now : ℕ} {malloc : MsgMallocs} {notified status : SystemStatus}
    (h : sendReceiveMsg g host (some frdName) (some msg) direction ready now malloc notified =
      some (status, g')) : g' = g ∨ ∃ box, g' = g.setBox host box := by
  cases ready with
  | false =>
    cases h
    exact .inl rfl
  | true =>
    obtain ⟨⟨stored, box⟩, -, hg⟩ := Option.map_eq_some_iff.mp h
    cases hg
    exact .inr ⟨box, rfl⟩

theorem inputMsg_writes {userName : CString} {params : List CString} {malloc : Bool}
    {reply : MsgReply} (h : inputMsg g userName params malloc = some (reply, g')) :
    g' = g ∨ ∃ host box, getUserInfo g userName none = some (some host) ∧
      g' = g.setBox host box := by
  obtain ⟨found, hfound, h⟩ := Option.bind_eq_some_iff.mp h
  cases found with
  | none =>
    cases h
    exact .inl rfl
  | some host =>
    cases params with
    | nil =>
      cases h
      exact .inl rfl
    | cons frdName rest =>
      obtain ⟨node, -, h⟩ := Option.bind_eq_some_iff.mp h
      obtain ⟨⟨brief, node'⟩, -, h⟩ := Option.map_eq_some_iff.mp h
      cases h
      exact .inr ⟨host, _, hfound, rfl⟩

theorem exchangeMsg_writes {payload : List UInt8} {now : ℕ} {malloc : MsgMallocs}
    (h : exchangeMsg g payload now malloc = some g') :
    g' = g ∨ ∃ event host box, decodeMsg payload = some event ∧
      getUserInfo g event.username none = some (some host) ∧ g' = g.setBox host box := by
  obtain ⟨event, hevent, h⟩ := Option.bind_eq_some_iff.mp h
  obtain ⟨found, hfound, h⟩ := Option.bind_eq_some_iff.mp h
  cases found with
  | none =>
    cases h
    exact .inl rfl
  | some host =>
    obtain ⟨⟨status, g''⟩, hsend, rfl⟩ := Option.map_eq_some_iff.mp h
    exact (sendReceiveMsg_writes hsend).imp_right fun ⟨box, hbox⟩ =>
      ⟨event, host, box, hevent, hfound, hbox⟩

/-! ### Books -/

theorem getBookFrom_some {host : Option ℕ} {bookName : CString} {bs : List ℕ} {b : ℕ}
    (h : getBookFrom g host bookName bs = some (some b)) :
    ∃ xs ys, bs = xs ++ b :: ys ∧ (∀ x ∈ xs, ∃ info, g.book x = some info ∧
      ¬ info.name.StartsWith bookName) ∧ NameStarts g b bookName := by
  induction bs with
  | nil => cases h
  | cons c bs ih =>
    obtain ⟨info, hinfo, h⟩ := Option.bind_eq_some_iff.mp h
    obtain ⟨searches, -, h⟩ := Option.bind_eq_some_iff.mp h
    split_ifs at h with hs hname
    · cases h
    · cases h
      exact ⟨[], bs, rfl, by simp, info, hinfo, by simpa using hname⟩
    · obtain ⟨xs, ys, rfl, hxs, hb⟩ := ih h
      refine ⟨c :: xs, ys, rfl, ?_, hb⟩
      intro x hx
      rcases List.mem_cons.mp hx with rfl | hx
      · exact ⟨info, hinfo, by simpa using hname⟩
      · exact hxs x hx

theorem getBookFrom_append {bookName : CString} {b : ℕ} {xs : List ℕ}
    (hxs : ∀ x ∈ xs, ∃ info, g.book x = some info ∧ ¬ info.name.StartsWith bookName)
    (hb : NameStarts g b bookName) (ys : List ℕ) :
    getBookFrom g none bookName (xs ++ b :: ys) = some (some b) := by
  induction xs with
  | nil =>
    obtain ⟨info, hinfo, hname⟩ := hb
    rw [List.nil_append, getBookFrom, hinfo, Option.bind_some, searchesBook, Option.bind_some,
      if_neg Bool.true_eq_false.mp, if_pos (CString.strncmp_strlen.mpr hname)]
  | cons x xs ih =>
    obtain ⟨info, hinfo, hname⟩ := hxs x List.mem_cons_self
    rw [List.cons_append, getBookFrom, hinfo, Option.bind_some, searchesBook, Option.bind_some,
      if_neg Bool.true_eq_false.mp, if_neg (fun h => hname (CString.strncmp_strlen.mp h))]
    exact ih fun y hy => hxs y (List.mem_cons_of_mem x hy)

/-- Who is found by a name is found by it later on. -/
theorem Keeps.getUserInfo (h : Keeps g g') {name : CString} {u : ℕ}
    (hu : getUserInfo g name none = some (some u)) : getUserInfo g' name none = some (some u) := by
  obtain ⟨more, hmore⟩ := h.userList
  rw [getUserInfo_eq, Option.some_inj] at hu ⊢
  obtain ⟨hname, xs, ys, hsplit, hxs⟩ := List.find?_eq_some_iff_append.mp hu
  refine List.find?_eq_some_iff_append.mpr ⟨?_, xs, ys ++ more, ?_, ?_⟩
  · rw [h.username u (List.mem_of_find?_eq_some hu)]
    exact hname
  · rw [← hmore, hsplit, List.append_assoc, List.cons_append]
  · intro x hx
    rw [h.username x (hsplit ▸ List.mem_append_left _ hx)]
    exact hxs x hx

/-- The book that is found by a name is found by it later on, whoever removed it. -/
theorem Keeps.getBookByName (h : Keeps g g') {name : CString} {b : ℕ}
    (hb : getBookByName g none name = some (some b)) :
    getBookByName g' none name = some (some b) := by
  obtain ⟨more, hmore⟩ := h.head
  obtain ⟨xs, ys, hsplit, hxs, info, hinfo, hname⟩ := getBookFrom_some hb
  rw [Option.elim_none] at hsplit
  have hbook : ∀ c x, g.book c = some x → ∃ x', g'.book c = some x' ∧ x'.name = x.name := by
    intro c x hc
    obtain ⟨x', hx', hlater⟩ := h.book c x hc
    exact ⟨x', hx', hlater.name⟩
  rw [ELibrary.getBookByName, Option.elim_none, ← hmore, hsplit, List.append_assoc,
    List.cons_append]
  apply getBookFrom_append
  · intro x hx
    obtain ⟨x', hx', hstarts⟩ := hxs x hx
    obtain ⟨x'', hx'', heq⟩ := hbook x x' hx'
    exact ⟨x'', hx'', heq ▸ hstarts⟩
  · obtain ⟨info', hinfo', heq⟩ := hbook b info hinfo
    exact ⟨info', hinfo', heq ▸ hname⟩

theorem detechBookFrom_eq {bookName : CString} {b : ℕ} {xs : List ℕ}
    (hxs : ∀ x ∈ xs, ∃ info, g.book x = some info ∧ ¬ info.name.StartsWith bookName)
    (hb : NameStarts g b bookName) (passed ys : List ℕ) :
    detechBookFrom g bookName passed (xs ++ b :: ys) =
      some (if passed ++ xs = [] then [] else passed ++ xs ++ ys) := by
  induction xs generalizing passed with
  | nil =>
    obtain ⟨info, hinfo, hname⟩ := hb
    rw [List.nil_append, detechBookFrom, hinfo, Option.bind_some,
      if_pos (CString.strncmp_strlen.mpr hname), List.append_nil]
  | cons x xs ih =>
    obtain ⟨info, hinfo, hname⟩ := hxs x List.mem_cons_self
    rw [List.cons_append, detechBookFrom, hinfo, Option.bind_some,
      if_neg (fun h => hname (CString.strncmp_strlen.mp h)),
      ih (fun y hy => hxs y (List.mem_cons_of_mem x hy))]
    simp

/-- A book is written that keeps its owner and its count. -/
theorem Server.Kept.setBook (h : g.Kept n) {b : ℕ} {info info' : BookInfo}
    (hb : g.book b = some info) (howner : info'.owner = info.owner)
    (hcount : info'.countCollected = info.countCollected) (hlater : info.Later info') :
    (g.setBook b info').Kept n ∧ Keeps g (g.setBook b info') := by
  have hbook : ∀ c, (g.setBook b info').book c = if c = b then some info' else g.book c :=
    fun c => Function.update_apply g.book b (some info') c
  constructor
  · refine { h with owner := ?_, counted := ?_, shelf := ?_, listed := ?_ }
    · intro c x o hc ho
      rw [hbook] at hc
      split_ifs at hc with hcb
      · cases hc
        exact h.owner b info o hb (howner ▸ ho)
      · exact h.owner c x o hc ho
    · intro c x hc
      rw [hbook] at hc
      split_ifs at hc with hcb
      · cases hc
        rw [hcount, howner]
        exact h.counted b info hb
      · exact h.counted c x hc
    · intro u c hc
      obtain ⟨x, hx, ho⟩ := h.shelf u c hc
      rw [hbook]
      split_ifs with hcb
      · subst hcb
        obtain rfl : info = x := Option.some.inj (hb.symm.trans hx)
        exact ⟨info', rfl, howner.trans ho⟩
      · exact ⟨x, hx, ho⟩
    · intro c hc
      rw [hbook]
      split_ifs
      · rfl
      · exact h.listed c hc
  · refine ⟨List.prefix_refl _, fun _ _ => rfl, List.prefix_refl _, ?_⟩
    intro c x hc
    rw [hbook]
    split_ifs with hcb
    · subst hcb
      obtain rfl : info = x := Option.some.inj (hb.symm.trans hc)
      exact ⟨info', rfl, hlater⟩
    · exact ⟨x, hc, .refl x⟩

theorem Server.Kept.newBook (h : g.Kept n) {o b : ℕ} (ho : o ∈ g.userList) (hb : g.book b = none)
    (name : CString) :
    (g.setBook b (newBookInfo o name)).Kept n ∧ Keeps g (g.setBook b (newBookInfo o name)) := by
  have hbook : ∀ c, (g.setBook b (newBookInfo o name)).book c =
      if c = b then some (newBookInfo o name) else g.book c :=
    fun c => Function.update_apply g.book b _ c
  have hold : ∀ {c : ℕ} {x : BookInfo}, g.book c = some x →
      (g.setBook b (newBookInfo o name)).book c = some x := by
    intro c x hc
    rw [hbook, if_neg]
    · exact hc
    · rintro rfl
      rw [hb] at hc
      cases hc
  constructor
  · refine { h with owner := ?_, counted := ?_, shelf := ?_, listed := ?_ }
    · intro c x p hc hp
      rw [hbook] at hc
      split_ifs at hc with hcb
      · cases hc
        exact Option.some.inj hp ▸ ho
      · exact h.owner c x p hc hp
    · intro c x hc
      rw [hbook] at hc
      split_ifs at hc with hcb
      · cases hc
        rfl
      · exact h.counted c x hc
    · intro u c hc
      obtain ⟨x, hx, hxo⟩ := h.shelf u c hc
      exact ⟨x, hold hx, hxo⟩
    · intro c hc
      obtain ⟨x, hx⟩ := Option.isSome_iff_exists.mp (h.listed c hc)
      rw [hold hx]
      rfl
  · exact ⟨List.prefix_refl _, fun _ _ => rfl, List.prefix_refl _,
      fun c x hc => ⟨x, hold hc, .refl x⟩⟩

/-- The book goes on the shelf, alone or right behind the first one. -/
theorem Server.Kept.addPrivate (h : g.Kept n) {o b : ℕ} {info : BookInfo}
    (hb : g.book b = some info) (howner : info.owner = some o) (hnew : b ∉ (g.user o).books)
    (hadd : addPrivate g o b = some g') : g'.Kept n ∧ Keeps g g' := by
  have hset : ∀ {books : List ℕ} {numBooks : UInt32},
      (∀ c ∈ books, c = b ∨ c ∈ (g.user o).books) → books.Nodup → books.length ≤ 2 →
        (g.setUser o { g.user o with books := books, numBooks := numBooks }).Kept n := by
    intro books numBooks hbooks hnodup hfew
    refine { h with friends := ?_, shelf := ?_, nodup := ?_, few := ?_ }
    · intro v f hf
      by_cases hv : v = o
      · rw [hv, setUser_user_self] at hf
        exact h.friends o f hf
      · rw [setUser_user_of_ne g hv] at hf
        exact h.friends v f hf
    · intro v c hc
      by_cases hv : v = o
      · rw [hv, setUser_user_self] at hc
        rcases hbooks c hc with rfl | hc
        · exact ⟨info, hb, hv ▸ howner⟩
        · exact hv ▸ h.shelf o c hc
      · rw [setUser_user_of_ne g hv] at hc
        exact h.shelf v c hc
    · intro v
      by_cases hv : v = o
      · rw [hv, setUser_user_self]
        exact hnodup
      · rw [setUser_user_of_ne g hv]
        exact h.nodup v
    · intro v
      by_cases hv : v = o
      · rw [hv, setUser_user_self]
        exact hfew
      · rw [setUser_user_of_ne g hv]
        exact h.few v
  rw [ELibrary.addPrivate] at hadd
  split_ifs at hadd with hzero
  · cases hadd
    refine ⟨hset ?_ (List.nodup_singleton b) (by simp), setUser_keeps fun _ => rfl⟩
    intro c hc
    exact .inl (List.mem_singleton.mp hc)
  · cases hbooks : (g.user o).books with
    | nil =>
      rw [hbooks] at hadd
      cases hadd
    | cons first rest =>
      rw [hbooks] at hadd hnew
      cases hadd
      have hne : first ≠ b := fun heq => hnew (heq ▸ List.mem_cons_self)
      refine ⟨hset ?_ (by simpa using hne) (by simp), setUser_keeps fun _ => rfl⟩
      intro c hc
      rw [hbooks]
      rcases List.mem_cons.mp hc with rfl | hc
      · exact .inr List.mem_cons_self
      · exact .inl (List.mem_singleton.mp hc)

theorem addPrivate_bookTotal {o b : ℕ} (hadd : addPrivate g o b = some g') :
    g'.bookTotal = g.bookTotal := by
  rw [addPrivate] at hadd
  split_ifs at hadd with hzero
  · cases hadd
    rfl
  · cases hbooks : (g.user o).books with
    | nil =>
      rw [hbooks] at hadd
      cases hadd
    | cons first rest =>
      rw [hbooks] at hadd
      cases hadd
      rfl

theorem Server.Kept.addPublic (h : g.Kept n) (hn : n + 1 < 2 ^ 32) {b : ℕ}
    (hb : (g.book b).isSome) (hnew : b ∉ g.bookTotal.head) (hadd : addPublic g b = some g') :
    g'.Kept (n + 1) ∧ Keeps g g' := by
  have hbound := h.bound
  have htotal := h.total
  have hpublish : g'.book = g.book ∧ g'.user = g.user ∧ g'.userList = g.userList ∧
      g'.bookTotal = ⟨g.bookTotal.head ++ [b], some b, g.bookTotal.numBooks + 1⟩ := by
    rw [ELibrary.addPublic] at hadd
    split_ifs at hadd with hzero htail
    · cases hadd
      have hnil : g.bookTotal.head = [] := by
        rw [hzero] at htotal
        exact List.length_eq_zero_iff.mp htotal.symm
      refine ⟨rfl, rfl, rfl, ?_⟩
      rw [hnil]
      rfl
    · cases hadd
      exact ⟨rfl, rfl, rfl, rfl⟩
  obtain ⟨hbook, huser, huserList, htot⟩ := hpublish
  constructor
  · constructor
    · rw [huser, huserList]
      exact h.friends
    · rw [hbook, huserList]
      exact h.owner
    · rw [hbook]
      exact h.counted
    · rw [hbook, huser]
      exact h.shelf
    · rw [huser]
      exact h.nodup
    · rw [huser]
      exact h.few
    · rw [htot, hbook]
      intro c hc
      rcases List.mem_append.mp hc with hc | hc
      · exact h.listed c hc
      · exact List.mem_singleton.mp hc ▸ hb
    · rw [htot]
      exact h.once.append (List.nodup_singleton b) (by simpa using hnew)
    · rw [htot]
      exact (List.getLast?_concat ..).symm
    · rw [htot]
      dsimp only
      rw [UInt32.toNat_add, List.length_append, htotal]
      exact Nat.mod_eq_of_lt (by simp; omega)
    · rw [htot]
      dsimp only
      rw [List.length_append]
      simpa using hbound
  · refine ⟨by rw [huserList], fun u _ => by rw [huser], ?_, ?_⟩
    · rw [htot]
      exact List.prefix_append _ _
    · rw [hbook]
      exact fun c x hc => ⟨x, hc, .refl x⟩

theorem Server.Kept.addBook (h : g.Kept n) (hn : n + 1 < 2 ^ 32) {o : ℕ} (ho : o ∈ g.userList)
    {bookName : CString} {bookDesp : Option CString} {bookGroup : Option ℕ} {malloc : BookMallocs}
    (hfresh : ∀ b, malloc.bookAdded = some b → g.book b = none) {status : SystemStatus}
    (hadd : addBook g (some o) (some bookName) bookDesp bookGroup malloc = some (status, g')) :
    g'.Kept (n + 1) ∧ Keeps g g' := by
  obtain ⟨found, -, hadd⟩ := Option.bind_eq_some_iff.mp hadd
  cases found with
  | some b =>
    cases hadd
    exact ⟨h.mono (Nat.le_succ n), Keeps.refl g⟩
  | none =>
    cases hb : malloc.bookAdded with
    | none =>
      rw [hb] at hadd
      dsimp only at hadd
      split_ifs at hadd
      cases hadd
      exact ⟨h.mono (Nat.le_succ n), Keeps.refl g⟩
    | some b =>
      rw [hb] at hadd
      dsimp only at hadd
      by_cases hlong : maxBookNameLength < bookName.strlen
      · rw [if_pos hlong] at hadd
        cases hadd
      rw [if_neg hlong] at hadd
      obtain ⟨g₂, hprivate, hadd⟩ := Option.bind_eq_some_iff.mp hadd
      obtain ⟨g₃, hpublic, hadd⟩ := Option.map_eq_some_iff.mp hadd
      cases hadd
      have hnone := hfresh b hb
      -- a book that was not there is on no shelf and not in the library
      have hshelf : b ∉ (g.user o).books := by
        intro hin
        obtain ⟨info, hinfo, -⟩ := h.shelf o b hin
        rw [hnone] at hinfo
        cases hinfo
      have hhead : b ∉ g.bookTotal.head := by
        intro hin
        have hsome := h.listed b hin
        rw [hnone] at hsome
        cases hsome
      obtain ⟨h₁, hkeeps₁⟩ := h.newBook ho hnone bookName
      have hself : (g.setBook b (newBookInfo o bookName)).book b = some (newBookInfo o bookName) :=
        Function.update_self ..
      have hsecond : g₂.Kept n ∧ Keeps (g.setBook b (newBookInfo o bookName)) g₂ ∧
          g₂.bookTotal = g.bookTotal := by
        split_ifs at hprivate with hmalloc
        · obtain ⟨h₂, hkeeps₂⟩ := h₁.addPrivate hself rfl hshelf hprivate
          exact ⟨h₂, hkeeps₂, (addPrivate_bookTotal hprivate :)⟩
        · cases hprivate
          exact ⟨h₁, Keeps.refl _, rfl⟩
      obtain ⟨h₂, hkeeps₂, htotal⟩ := hsecond
      have hkeeps := hkeeps₁.trans hkeeps₂
      split_ifs at hpublic with hmalloc
      · obtain ⟨info, hinfo, -⟩ := hkeeps₂.book b _ hself
        obtain ⟨h₃, hkeeps₃⟩ := h₂.addPublic hn (b := b) (by rw [hinfo]; rfl)
          (by rw [htotal]; exact hhead) hpublic
        exact ⟨h₃, hkeeps.trans hkeeps₃⟩
      · cases hpublic
        exact ⟨h₂.mono (Nat.le_succ n), hkeeps⟩

/-- A book that is on no shelf loses its owner. -/
theorem Server.Kept.disown (h : g.Kept n) {b : ℕ} {info : BookInfo} (hb : g.book b = some info)
    (hoff : ∀ u, b ∉ (g.user u).books) :
    (g.setBook b { info with owner := none, countCollected := -1 }).Kept n ∧
      Keeps g (g.setBook b { info with owner := none, countCollected := -1 }) := by
  have hbook : ∀ c, (g.setBook b { info with owner := none, countCollected := -1 }).book c =
      if c = b then some { info with owner := none, countCollected := -1 } else g.book c :=
    fun c => Function.update_apply g.book b _ c
  constructor
  · refine { h with owner := ?_, counted := ?_, shelf := ?_, listed := ?_ }
    · intro c x o hc ho
      rw [hbook] at hc
      split_ifs at hc with hcb
      · cases hc
        cases ho
      · exact h.owner c x o hc ho
    · intro c x hc
      rw [hbook] at hc
      split_ifs at hc with hcb
      · cases hc
        rfl
      · exact h.counted c x hc
    · intro u c hc
      obtain ⟨x, hx, ho⟩ := h.shelf u c hc
      have hcb : c ≠ b := fun heq => hoff u (heq ▸ hc)
      rw [hbook, if_neg hcb]
      exact ⟨x, hx, ho⟩
    · intro c hc
      rw [hbook]
      split_ifs
      · rfl
      · exact h.listed c hc
  · refine ⟨List.prefix_refl _, fun _ _ => rfl, List.prefix_refl _, ?_⟩
    intro c x hc
    rw [hbook]
    split_ifs with hcb
    · subst hcb
      obtain rfl : info = x := Option.some.inj (hb.symm.trans hc)
      exact ⟨_, rfl, rfl, List.suffix_refl _, List.suffix_refl _, .inr rfl⟩
    · exact ⟨x, hc, .refl x⟩

/-- A book on a shelf counts 0, so it is not freed: it loses its owner. -/
theorem Server.Kept.uncollect_eq (h : g.Kept n) {host b : ℕ} {info : BookInfo}
    (hb : g.book b = some info) (howner : info.owner = some host) (bookName : CString) :
    uncollect g b bookName =
      some (g.setBook b { info with owner := none, countCollected := -1 }) := by
  have hcount : info.countCollected = 0 := by
    rw [h.counted b info hb, howner, if_neg (Option.some_ne_none host)]
  rw [uncollect, hb, Option.bind_some, hcount]
  rfl

/-- A book is removed: it is left without an owner, and the library is as it was. -/
theorem Server.Kept.rmBook (h : g.Kept n) {host : ℕ} {bookName : CString} {status : SystemStatus}
    (hrm : rmBook g (some host) (some bookName) = some (status, g')) : g'.Kept n ∧ Keeps g g' := by
  obtain ⟨found, hfound, hrm⟩ := Option.bind_eq_some_iff.mp hrm
  cases found with
  | none =>
    cases hrm
    exact ⟨h, Keeps.refl g⟩
  | some b =>
    obtain ⟨xs, ys, hsplit, hxs, hb⟩ := getBookFrom_some hfound
    rw [Option.elim_some] at hsplit
    have hnodup : (xs ++ b :: ys).Nodup := hsplit ▸ h.nodup host
    have hoff : b ∉ xs ++ ys := (List.nodup_middle.mp hnodup).notMem
    obtain ⟨info, hinfo, howner⟩ := h.shelf host b (by simp [hsplit])
    dsimp only at hrm
    rw [h.uncollect_eq hinfo howner, Option.bind_some] at hrm
    obtain ⟨books, hdetech, hrm⟩ := Option.map_eq_some_iff.mp hrm
    cases hrm
    have hbooks : books.Sublist (xs ++ ys) := by
      have hb' : NameStarts (g.setBook b { info with owner := none, countCollected := -1 }) b
          bookName := by
        obtain ⟨info', hinfo', hname⟩ := hb
        obtain rfl : info = info' := Option.some.inj (hinfo.symm.trans hinfo')
        exact ⟨_, Function.update_self .., hname⟩
      have hxs' : ∀ x ∈ xs, ∃ info', (g.setBook b
          { info with owner := none, countCollected := -1 }).book x = some info' ∧
          ¬ info'.name.StartsWith bookName := by
        intro x hx
        have hxb : x ≠ b := fun heq => hoff (heq ▸ List.mem_append_left ys hx)
        obtain ⟨info', hinfo', hname⟩ := hxs x hx
        exact ⟨info', (Function.update_of_ne hxb ..).trans hinfo', hname⟩
      change detechBookFrom _ bookName [] (g.user host).books = some books at hdetech
      rw [hsplit, detechBookFrom_eq hxs' hb' [] ys] at hdetech
      cases hdetech
      split_ifs
      · exact List.nil_sublist _
      · exact List.Sublist.refl _
    have hshelf : books.Sublist (g.user host).books := by
      rw [hsplit]
      exact hbooks.trans ((List.sublist_cons_self b ys).append_left xs)
    -- the shelf can be written first
    have hset : (g.setUser host { g.user host with
        books := books, numBooks := (g.user host).numBooks - 1 }).Kept n :=
      h.setUser hshelf (h.friends host)
    obtain ⟨hkept, hkeeps⟩ := hset.disown hinfo (by
      intro u hu
      by_cases huh : u = host
      · rw [huh, setUser_user_self] at hu
        exact hoff (hbooks.subset hu)
      · rw [setUser_user_of_ne g huh] at hu
        obtain ⟨info', hinfo', ho⟩ := h.shelf u b hu
        obtain rfl : info = info' := Option.some.inj (hinfo.symm.trans hinfo')
        exact huh (Option.some.inj (ho.symm.trans howner)))
    have hkeeps' : Keeps g (g.setUser host { g.user host with
        books := books, numBooks := (g.user host).numBooks - 1 }) := setUser_keeps fun _ => rfl
    exact ⟨hkept, hkeeps'.trans hkeeps⟩

end Steps

end MorningProjects.ELibrary
