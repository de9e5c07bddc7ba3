import MorningProjects.ELibrary.Directory
import MorningProjects.Library.Runs

/-!
# Friends

`addFriend` recognises a friend by the whole name, `rmFriend` and `getFrdInfo` by
a prefix of it, and detaching the first friend drops the whole list. A run keeps
every list in step with what was added and removed as long as no removal meets
the second or the third.
-/
namespace MorningProjects.ELibrary
open Library

/-- The loop of `addFriend` over a list that is not empty. -/
def isFriend (g : Server) (friend : ℕ) (friends : List ℕ) : Bool :=
  friends.any fun f => (g.user f).username.strcmp (g.user friend).username = 0

def addFriend (g : Server) (host friend : ℕ) (malloc : Bool) : Option (SystemStatus × Server) :=
  let info := g.user host
  if malloc then
    if info.numFrds ≠ 0 then
      -- `current` is dereferenced before any test
      if info.friends = [] then none
      else if isFriend g friend info.friends then some (.ok, g)
      else
        some (.ok, g.setUser host
          { info with friends := info.friends ++ [friend], numFrds := info.numFrds + 1 })
    else
      some (.ok, g.setUser host { info with friends := [friend], numFrds := info.numFrds + 1 })
  else some (.fail, g)

def getFrdInfo (g : Server) (host : ℕ) (frdName : CString) : Option ℕ :=
  (g.user host).friends.find? fun f =>
    (g.user f).username.strncmp frdName frdName.strlen = 0

/-- The loop of `detechFrdNode`, with the nodes already passed: the friends left. -/
def detechFrdFrom (g : Server) (frdName : CString) (passed : List ℕ) : List ℕ → List ℕ
  | [] => passed
  | f :: fs =>
    if (g.user f).username.strncmp frdName frdName.strlen = 0 then
      -- without a predecessor the list is cleared
      if passed = [] then [] else passed ++ fs
    else detechFrdFrom g frdName (passed ++ [f]) fs

def rmFriend (g : Server) (host : ℕ) (frdName : CString) : SystemStatus × Server :=
  match getFrdInfo g host frdName with
  | none => (.fail, g)
  | some _ =>
    let info := g.user host
    (.ok, g.setUser host
      { info with friends := detechFrdFrom g frdName [] info.friends, numFrds := info.numFrds - 1 })

theorem getFrdInfo_eq (g : Server) (host : ℕ) (frdName : CString) :
    getFrdInfo g host frdName =
      (g.user host).friends.find? fun f => (g.user f).username.StartsWith frdName := by
  simp [getFrdInfo]

/-- The first friend found leaves the list, with all the others if it is the head. -/
theorem detechFrdFrom_eq {g : Server} {frdName : CString} {f : ℕ} {xs : List ℕ}
    (hxs : ∀ x ∈ xs, ¬ (g.user x).username.StartsWith frdName)
    (hf : (g.user f).username.StartsWith frdName) (passed ys : List ℕ) :
    detechFrdFrom g frdName passed (xs ++ f :: ys) =
      if passed ++ xs = [] then [] else passed ++ xs ++ ys := by
  induction xs generalizing passed with
  | nil => simp [detechFrdFrom, hf]
  | cons x xs ih =>
    have hx := hxs x List.mem_cons_self
    rw [List.cons_append, detechFrdFrom, if_neg (by simpa using hx),
      ih (fun y hy => hxs y (List.mem_cons_of_mem x hy))]
    simp

/-! ### Runs -/

/-- The server and, for every user, the friends added and not since removed. -/
structure FriendState where
  server : Server
  added : ℕ → List ℕ

inductive FriendOp where
  | addUser (userName email : CString) (malloc : UserMallocs)
  | addFriend (host friend : ℕ) (malloc : Bool)
  | rmFriend (host : ℕ) (frdName : CString)

def FriendState.init : FriendState := ⟨Server.init, fun _ => []⟩

def friendStep (layout : UserLayout) (s : FriendState) : FriendOp → Option FriendState
  | .addUser userName email malloc =>
    (addUser layout s.server userName email malloc).map fun (_, g) => ⟨g, s.added⟩
  | .addFriend host friend malloc =>
    (addFriend s.server host friend malloc).map fun (status, g) =>
      if status = .ok ∧ friend ∉ s.added host then
        ⟨g, Function.update s.added host (s.added host ++ [friend])⟩
      else ⟨g, s.added⟩
  | .rmFriend host frdName =>
    match rmFriend s.server host frdName with
    | (.ok, g) => some ⟨g, Function.update s.added host
        ((s.added host).filter fun f => (s.server.user f).username ≠ frdName)⟩
    | (_, g) => some ⟨g, s.added⟩

def FriendState.Permits (s : FriendState) : FriendOp → Prop
  | .addUser _ _ malloc => ∀ u, malloc.newUser = some u → u ∉ s.server.userList
  | .addFriend host friend _ => host ∈ s.server.userList ∧ friend ∈ s.server.userList
  | .rmFriend host _ => host ∈ s.server.userList

/-- The condition on a call. A new friend has another stored name than the friends the
host has, and the counter has room. The first friend whose name starts with the name to
remove has exactly that name, and is not the head of a longer list. -/
def FriendState.Meets (s : FriendState) : FriendOp → Prop
  | .addUser _ _ _ => True
  | .addFriend host friend _ =>
    friend ∈ (s.server.user host).friends ∨
      (∀ f ∈ (s.server.user host).friends,
        (s.server.user f).username ≠ (s.server.user friend).username) ∧
      (s.server.user host).friends.length + 1 < 2 ^ 32
  | .rmFriend host frdName =>
    ∀ f, getFrdInfo s.server host frdName = some f →
      (s.server.user f).username = frdName ∧
        ((s.server.user host).friends.head? = some f → (s.server.user host).friends = [f])

/-- The list of a host is what was added and not removed, and the counter counts it. -/
structure FriendState.HostInStep (s : FriendState) (host : ℕ) : Prop where
  friends : (s.server.user host).friends = s.added host
  nodup : (s.added host).Nodup
  counted : (s.server.user host).numFrds.toNat = (s.added host).length

def FriendState.CallMeets (layout : UserLayout) (s : FriendState) : FriendOp → Prop
  | .addUser _ _ _ => True
  | .addFriend host friend malloc =>
    ∃ s', friendStep layout s (.addFriend host friend malloc) = some s'
  | .rmFriend host frdName =>
    (∃ f ∈ (s.server.user host).friends, (s.server.user f).username = frdName ∧
        ∃ g, rmFriend s.server host frdName = (.ok, g) ∧
          (g.user host).friends = (s.server.user host).friends.erase f) ∨
      (∀ f ∈ (s.server.user host).friends, (s.server.user f).username ≠ frdName) ∧
        rmFriend s.server host frdName = (.fail, s.server)

/-- The invariant: every host is in step, friends are registered, and no two friends of a
host share a name. -/
structure FriendState.InStep (s : FriendState) : Prop where
  host : ∀ h, s.HostInStep h
  registered : ∀ h, ∀ f ∈ s.added h, f ∈ s.server.userList ∧ h ∈ s.server.userList
  distinct : ∀ h, ∀ f ∈ s.added h, ∀ f' ∈ s.added h,
    (s.server.user f).username = (s.server.user f').username → f = f'

theorem FriendState.inStep_init : FriendState.init.InStep := by
  constructor
  · intro h
    exact ⟨rfl, List.nodup_nil, rfl⟩
  · intro h f hf
    cases hf
  · intro h f hf
    cases hf

section Step

variable (layout : UserLayout) {s s' : FriendState}

theorem FriendState.InStep.addUser (h : s.InStep) {userName email : CString}
    {malloc : UserMallocs} (hpermit : s.Permits (.addUser userName email malloc))
    (hs : friendStep layout s (.addUser userName email malloc) = some s') : s'.InStep := by
  obtain ⟨⟨status, g⟩, hadd, rfl⟩ := Option.map_eq_some_iff.mp hs
  rcases addUser_cases hadd with rfl | ⟨u, hu, -, hlist, huser⟩
  · exact h
  · have hfresh := hpermit u hu
    have hempty : s.added u = [] := by
      rw [List.eq_nil_iff_forall_not_mem]
      intro f hf
      exact hfresh (h.registered u f hf).2
    have hsame : ∀ v, v ∈ s.server.userList → g.user v = s.server.user v := by
      intro v hv
      rw [huser, Function.update_of_ne]
      exact fun heq => hfresh (heq ▸ hv)
    have hmem : ∀ v, v ∈ s.server.userList → v ∈ g.userList := by
      intro v hv
      rcases hlist with hlist | hlist <;> rw [hlist]
      · exact hv
      · exact List.mem_append_left _ hv
    constructor
    · intro v
      by_cases hv : v = u
      · subst hv
        constructor
        · change (g.user v).friends = s.added v
          rw [huser, Function.update_self, hempty]
          rfl
        · exact (h.host v).nodup
        · change (g.user v).numFrds.toNat = (s.added v).length
          rw [huser, Function.update_self, hempty]
          rfl
      · have heq : g.user v = s.server.user v := by rw [huser, Function.update_of_ne hv]
        constructor
        · change (g.user v).friends = s.added v
          rw [heq, (h.host v).friends]
        · exact (h.host v).nodup
        · change (g.user v).numFrds.toNat = (s.added v).length
          rw [heq, (h.host v).counted]
    · intro v f hf
      exact ⟨hmem f (h.registered v f hf).1, hmem v (h.registered v f hf).2⟩
    · intro v f hf f' hf' heq
      apply h.distinct v f hf f' hf'
      rwa [← hsame f (h.registered v f hf).1, ← hsame f' (h.registered v f' hf').1]

theorem FriendState.InStep.setFriends (h : s.InStep) {host : ℕ} {friends : List ℕ} {n : UInt32}
    (hnodup : friends.Nodup) (hcount : n.toNat = friends.length)
    (hreg : ∀ f ∈ friends, f ∈ s.server.userList ∧ host ∈ s.server.userList)
    (hdistinct : ∀ f ∈ friends, ∀ f' ∈ friends,
      (s.server.user f).username = (s.server.user f').username → f = f') :
    FriendState.InStep ⟨s.server.setUser host
      { s.server.user host with friends := friends, numFrds := n },
      Function.update s.added host friends⟩ := by
  have hname : ∀ v, ((s.server.setUser host
      { s.server.user host with friends := friends, numFrds := n }).user v).username =
        (s.server.user v).username := by
    intro v
    by_cases hv : v = host
    · rw [hv, setUser_user_self]
    · rw [setUser_user_of_ne _ hv]
  constructor
  · intro v
    by_cases hv : v = host
    · subst hv
      constructor
      · simp
      · simpa using hnodup
      · simpa using hcount
    · have hhost := h.host v
      constructor
      · simpa [hv] using hhost.friends
      · simpa [hv] using hhost.nodup
      · simpa [hv] using hhost.counted
  · intro v f hf
    dsimp only at hf
    by_cases hv : v = host
    · rw [hv, Function.update_self] at hf
      rw [hv]
      exact hreg f hf
    · rw [Function.update_of_ne hv] at hf
      exact h.registered v f hf
  · intro v f hf f' hf' heq
    dsimp only at hf hf' heq
    rw [hname, hname] at heq
    by_cases hv : v = host
    · rw [hv, Function.update_self] at hf hf'
      exact hdistinct f hf f' hf' heq
    · rw [Function.update_of_ne hv] at hf hf'
      exact h.distinct v f hf f' hf' heq

theorem isFriend_eq_true {g : Server} {friend : ℕ} {friends : List ℕ} :
    isFriend g friend friends = true ↔
      ∃ f ∈ friends, (g.user f).username = (g.user friend).username := by
  simp [isFriend]

theorem FriendState.InStep.addFriend (h : s.InStep) {host friend : ℕ} {malloc : Bool}
    (hpermit : s.Permits (.addFriend host friend malloc))
    (hmeet : s.Meets (.addFriend host friend malloc)) :
    ∃ s', friendStep layout s (.addFriend host friend malloc) = some s' ∧ s'.InStep := by
  have hhost := h.host host
  have hfriends := hhost.friends
  cases malloc with
  | false => exact ⟨s, rfl, h⟩
  | true =>
    by_cases hzero : (s.server.user host).numFrds = 0
    · have hempty : s.added host = [] := by
        apply List.eq_nil_of_length_eq_zero
        rw [← hhost.counted, hzero]
        rfl
      refine ⟨_, by simp [friendStep, ELibrary.addFriend, hzero, hempty]; rfl, ?_⟩
      apply h.setFriends
      · exact List.nodup_singleton friend
      · rfl
      · intro f hf
        rw [List.mem_singleton.mp hf]
        exact ⟨hpermit.2, hpermit.1⟩
      · intro f hf f' hf' _
        rw [List.mem_singleton.mp hf, List.mem_singleton.mp hf']
    · have hne : (s.server.user host).friends ≠ [] := by
        intro hnil
        apply hzero
        rw [← UInt32.toNat_inj, hhost.counted, ← hfriends, hnil]
        rfl
      by_cases hmem : friend ∈ (s.server.user host).friends
      · have his : isFriend s.server friend (s.server.user host).friends = true :=
          isFriend_eq_true.mpr ⟨friend, hmem, rfl⟩
        rw [hfriends] at hmem
        exact ⟨s, by simp [friendStep, ELibrary.addFriend, hzero, hne, his, hmem], h⟩
      · obtain ⟨hother, hroom⟩ := hmeet.resolve_left hmem
        have his : isFriend s.server friend (s.server.user host).friends = false := by
          rw [← Bool.not_eq_true, isFriend_eq_true]
          rintro ⟨f, hf, heq⟩
          exact hother f hf heq
        rw [hfriends] at hmem hother hroom
        refine ⟨_, by simp [friendStep, ELibrary.addFriend, hzero, hne, his, hmem]; rfl, ?_⟩
        rw [hfriends]
        apply h.setFriends
        · rw [List.nodup_append]
          refine ⟨hhost.nodup, List.nodup_singleton friend, ?_⟩
          rintro f hf f' hf' rfl
          exact hmem (List.mem_singleton.mp hf' ▸ hf)
        · rw [toNat_succ (by rwa [hhost.counted]), hhost.counted, List.length_append]
          rfl
        · intro f hf
          rcases List.mem_append.mp hf with hf | hf
          · exact h.registered host f hf
          · rw [List.mem_singleton.mp hf]
            exact ⟨hpermit.2, hpermit.1⟩
        · intro f hf f' hf' heq
          rcases List.mem_append.mp hf with hf | hf <;> rcases List.mem_append.mp hf' with hf' | hf'
          · exact h.distinct host f hf f' hf' heq
          · rw [List.mem_singleton.mp hf'] at heq
            exact (hother f hf heq).elim
          · rw [List.mem_singleton.mp hf] at heq
            exact (hother f' hf' heq.symm).elim
          · rw [List.mem_singleton.mp hf, List.mem_singleton.mp hf']

theorem FriendState.InStep.rmFriend_eq (h : s.InStep) {host : ℕ} {frdName : CString}
    (hmeet : s.Meets (.rmFriend host frdName)) :
    (∀ f ∈ s.added host, (s.server.user f).username ≠ frdName) ∧
        rmFriend s.server host frdName = (.fail, s.server) ∨
      ∃ xs f ys, s.added host = xs ++ f :: ys ∧ (s.server.user f).username = frdName ∧
        rmFriend s.server host frdName = (.ok, s.server.setUser host
          { s.server.user host with
            friends := xs ++ ys, numFrds := (s.server.user host).numFrds - 1 }) := by
  have hfriends := (h.host host).friends
  cases hfound : getFrdInfo s.server host frdName with
  | none =>
    refine .inl ⟨?_, by rw [rmFriend, hfound]⟩
    intro f hf heq
    rw [getFrdInfo_eq, hfriends, List.find?_eq_none] at hfound
    apply hfound f hf
    rw [heq]
    simpa using CString.startsWith_self frdName
  | some f =>
    obtain ⟨hname, halone⟩ := hmeet f hfound
    have hfind := hfound
    rw [getFrdInfo_eq, hfriends] at hfind
    obtain ⟨hf, xs, ys, hsplit, hxs⟩ := List.find?_eq_some_iff_append.mp hfind
    refine .inr ⟨xs, f, ys, hsplit, hname, ?_⟩
    rw [hfriends, hsplit] at halone
    have hdetech : detechFrdFrom s.server frdName [] (s.server.user host).friends = xs ++ ys := by
      rw [hfriends, hsplit, detechFrdFrom_eq (by simpa using hxs) (by simpa using hf)]
      cases xs with
      | nil =>
        have hys : ys = [] := by simpa using halone rfl
        simp [hys]
      | cons x xs => simp
    rw [rmFriend, hfound]
    simp only [hdetech]

theorem FriendState.InStep.filter_eq (h : s.InStep) {host f : ℕ} {xs ys : List ℕ}
    (hsplit : s.added host = xs ++ f :: ys) :
    ((s.added host).filter fun g => (s.server.user g).username ≠ (s.server.user f).username) =
      xs ++ ys := by
  have hnodup := (h.host host).nodup
  have hkeep : ∀ g ∈ xs ++ ys, (s.server.user g).username ≠ (s.server.user f).username := by
    intro g hg heq
    have hgf := h.distinct host g (by rw [hsplit]; simp at hg ⊢; tauto) f (by rw [hsplit]; simp) heq
    rw [hsplit] at hnodup
    exact (List.nodup_cons.mp (List.nodup_middle.mp hnodup)).1 (hgf ▸ hg)
  rw [hsplit, List.filter_append, List.filter_cons_of_neg (by simp), ← List.filter_append]
  exact List.filter_eq_self.mpr fun g hg => by simpa using hkeep g hg

theorem FriendState.InStep.rmFriend (h : s.InStep) {host : ℕ} {frdName : CString}
    (hmeet : s.Meets (.rmFriend host frdName)) :
    ∃ s', friendStep layout s (.rmFriend host frdName) = some s' ∧ s'.InStep := by
  rcases h.rmFriend_eq hmeet with ⟨-, hfail⟩ | ⟨xs, f, ys, hsplit, rfl, hok⟩
  · exact ⟨s, by rw [friendStep, hfail], h⟩
  · have hhost := h.host host
    have hmem : ∀ g ∈ xs ++ ys, g ∈ s.added host := by
      intro g hg
      rw [hsplit]
      simp at hg ⊢
      tauto
    refine ⟨_, by rw [friendStep, hok], ?_⟩
    rw [h.filter_eq hsplit]
    apply h.setFriends
    · have hnodup := hhost.nodup
      rw [hsplit] at hnodup
      exact (List.nodup_cons.mp (List.nodup_middle.mp hnodup)).2
    · have hcount := hhost.counted
      rw [hsplit] at hcount
      simp only [List.length_append, List.length_cons] at hcount ⊢
      have hpred := toNat_pred (n := (s.server.user host).numFrds) (by omega)
      omega
    · intro g hg
      exact h.registered host g (hmem g hg)
    · intro g hg g' hg'
      exact h.distinct host g (hmem g hg) g' (hmem g' hg')

theorem FriendState.InStep.callMeets (h : s.InStep) {op : FriendOp} (hpermit : s.Permits op)
    (hmeet : s.Meets op) : s.CallMeets layout op := by
  cases op with
  | addUser userName email malloc => trivial
  | addFriend host friend malloc =>
    obtain ⟨s', hs', -⟩ := h.addFriend layout hpermit hmeet
    exact ⟨s', hs'⟩
  | rmFriend host frdName =>
    have hfriends := (h.host host).friends
    rcases h.rmFriend_eq hmeet with ⟨hnone, hfail⟩ | ⟨xs, f, ys, hsplit, rfl, hok⟩
    · exact .inr ⟨by rwa [hfriends], hfail⟩
    · refine .inl ⟨f, by rw [hfriends, hsplit]; simp, rfl, _, hok, ?_⟩
      have hf : f ∉ xs := by
        intro hmem
        have hnodup := (h.host host).nodup
        rw [hsplit] at hnodup
        exact (List.nodup_cons.mp (List.nodup_middle.mp hnodup)).1 (List.mem_append_left ys hmem)
      rw [hfriends, hsplit, setUser_user_self, List.erase_append_right _ hf, List.erase_cons_head]

end Step

/-- In every run whose calls meet their conditions, no call dereferences NULL, removals
take out exactly the friend of the name, and every state reached is in step. -/
theorem friend_run_inStep (layout : UserLayout) (ops : List FriendOp)
    (hops : Along (friendStep layout) (fun s op => s.Permits op ∧ s.Meets op)
      FriendState.init ops) :
    Along (friendStep layout) (FriendState.CallMeets layout)
        FriendState.init ops ∧
      ∀ s, runFrom (friendStep layout) FriendState.init ops = some s →
        ∀ host, s.HostInStep host := by
  have hstep : ∀ (s : FriendState) op s', s.InStep → s.Permits op ∧ s.Meets op →
      friendStep layout s op = some s' → s'.InStep := by
    rintro s op s' h ⟨hpermit, hmeet⟩ hs
    cases op with
    | addUser userName email malloc => exact h.addUser layout hpermit hs
    | addFriend host friend malloc =>
      obtain ⟨t, ht, hin⟩ := h.addFriend layout hpermit hmeet
      exact Option.some.inj (ht.symm.trans hs) ▸ hin
    | rmFriend host frdName =>
      obtain ⟨t, ht, hin⟩ := h.rmFriend layout hmeet
      exact Option.some.inj (ht.symm.trans hs) ▸ hin
  constructor
  · apply along_of_invariant hstep _ FriendState.inStep_init hops
    rintro s op h ⟨hpermit, hmeet⟩
    exact h.callMeets layout hpermit hmeet
  · intro s hs host
    exact (runFrom_invariant hstep FriendState.inStep_init hops hs).host host

def bob : CString := ⟨[66, 111, 98], by decide⟩
def clair : CString := ⟨[67, 108, 97, 105, 114], by decide⟩

theorem friend_run_inStep_example :
    ∃ s, runFrom (friendStep smallLayout) FriendState.init
        [.addUser alex alex ⟨some 0, true, true⟩, .addUser bob bob ⟨some 1, true, true⟩,
          .addFriend 0 1 true, .rmFriend 0 bob] = some s ∧ ∀ host, s.HostInStep host := by
  have hops : Along (friendStep smallLayout) (fun s op => s.Permits op ∧ s.Meets op)
      FriendState.init
      [.addUser alex alex ⟨some 0, true, true⟩, .addUser bob bob ⟨some 1, true, true⟩,
        .addFriend 0 1 true, .rmFriend 0 bob] := by
    constructor
    · exact ⟨fun _ _ => List.not_mem_nil, trivial⟩
    rintro _ ⟨⟩
    constructor
    · have hfresh : 1 ∉ [0] := by decide
      refine ⟨?_, trivial⟩
      rintro u ⟨⟩
      exact hfresh
    rintro _ ⟨⟩
    constructor
    · have hmem : 0 ∈ [0, 1] ∧ 1 ∈ [0, 1] := by decide
      have hroom : 0 + 1 < 2 ^ 32 := by decide
      refine ⟨hmem, .inr ⟨?_, hroom⟩⟩
      intro f hf
      cases hf
    rintro _ ⟨⟩
    constructor
    · have hmem : 0 ∈ [0, 1] := by decide
      refine ⟨hmem, ?_⟩
      rintro f ⟨⟩
      exact ⟨rfl, fun _ => rfl⟩
    · intro s _
      trivial
  exact ⟨_, rfl, (friend_run_inStep smallLayout _ hops).2 _ rfl⟩

/-- Removing the first of two friends loses the second. -/
theorem friend_run_not_inStep :
    ∃ s, runFrom (friendStep smallLayout) FriendState.init
        [.addUser alex alex ⟨some 0, true, true⟩, .addUser bob bob ⟨some 1, true, true⟩,
          .addUser clair clair ⟨some 2, true, true⟩, .addFriend 0 1 true, .addFriend 0 2 true,
          .rmFriend 0 bob] = some s ∧ ¬ s.HostInStep 0 := by
  refine ⟨_, rfl, fun h => ?_⟩
  have hlist : ([] : List ℕ) = [2] := h.friends
  cases hlist

end MorningProjects.ELibrary
