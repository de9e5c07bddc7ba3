import MorningProjects.Common.Status
import MorningProjects.Library.Counter
import MorningProjects.Library.Runs

/-!
# The map of a user's friends

A map is an array of user ids, and a slot is free if it is 0. `Map_InsertElement`
looks for the id and a free slot in one loop, but takes a free slot only if it
has one already: it never stores an id. `Map_RemoveElement` does what it should.
The handlers read the ids of the users found through a pointer that is NULL, so a
request comes back only if there are none.
-/
namespace MorningProjects.ELibrary
open Library

/-- The loop of `Map_InsertElement` on the slots from `i` on: where it ends, and
`p_empty_slot`. -/
def insertLoop (newElement : UInt32) : List UInt32 → ℕ → Option ℕ → ℕ × Option ℕ
  | [], i, emptySlot => (i, emptySlot)
  | x :: xs, i, emptySlot =>
    if x ≠ 0 then
      if newElement = x then (i, none) else insertLoop newElement xs (i + 1) emptySlot
    else
      -- the test should be for NULL: a first free slot is never kept
      if emptySlot ≠ none then insertLoop newElement xs (i + 1) (some i)
      else insertLoop newElement xs (i + 1) emptySlot

def mapInsertElement (map : List UInt32) (newElement : UInt32) : SystemStatus × List UInt32 :=
  match insertLoop newElement map 0 none with
  | (_, some slot) => (.ok, map.set slot newElement)
  | (i, none) => if i = map.length then (.fail, map) else (.ok, map)

/-- The loop of `Map_RemoveElement`; no result when the element is not found. -/
def removeLoop (element : UInt32) : List UInt32 → Option (List UInt32)
  | [] => none
  | x :: xs => if element = x then some (0 :: xs) else (removeLoop element xs).map (x :: ·)

def mapRemoveElement (map : List UInt32) (element : UInt32) : SystemStatus × List UInt32 :=
  match removeLoop element map with
  | some map' => (.ok, map')
  | none => (.fail, map)

/-- The fields of `USER_INFO` that the handlers use. -/
structure UserData where
  friendsMap : List UInt32
  numFriends : UInt32
  deriving DecidableEq

inductive ResponseStatus where
  | undef
  | ok
  | fail
  | lastvalue
  deriving DecidableEq, Repr

/-- What `findUsersByFilter` of the database answers: a status and `num_users`. The handlers pass
it NULL for the user ids. -/
structure FoundUsers where
  result : SystemStatus
  numUsers : UInt32

def responseStatus (result : SystemStatus) : ResponseStatus :=
  if result = .ok then .ok else .fail

/-- The rounds left of the loop of `eLibrary_SVR_Handler_AddFriend`, with the ids that can be read
from `user_ids + i` on. -/
def addFriendLoop (u : UserData) (result : SystemStatus) :
    ℕ → List UInt32 → Option (SystemStatus × UserData)
  | 0, _ => some (result, u)
  | _ + 1, [] => none
  | left + 1, id :: ids =>
    let (result, map) := mapInsertElement u.friendsMap id
    if result ≠ .ok then some (result, { u with friendsMap := map })
    else addFriendLoop { friendsMap := map, numFriends := u.numFriends + 1 } result left ids

def handlerAddFriend (u : UserData) (found : FoundUsers) : Option (ResponseStatus × UserData) :=
  -- `user_ids` is still NULL: there is nothing to read
  (addFriendLoop u found.result found.numUsers.toNat []).map fun (result, u) =>
    (responseStatus result, u)

/-- The rounds left of the loop of `eLibrary_SVR_Handler_RmFriend`. -/
def rmFriendLoop (u : UserData) (result : SystemStatus) :
    ℕ → List UInt32 → Option (SystemStatus × UserData)
  | 0, _ => some (result, u)
  | _ + 1, [] => none
  | left + 1, id :: ids =>
    let (result, map) := mapRemoveElement u.friendsMap id
    let numFriends := if result = .ok then u.numFriends - 1 else u.numFriends
    rmFriendLoop { friendsMap := map, numFriends := numFriends } result left ids

def handlerRmFriend (u : UserData) (found : FoundUsers) : Option (ResponseStatus × UserData) :=
  (rmFriendLoop u found.result found.numUsers.toNat []).map fun (result, u) =>
    (responseStatus result, u)

inductive FriendRequest where
  | add (found : FoundUsers)
  | rm (found : FoundUsers)

def FriendRequest.found : FriendRequest → FoundUsers
  | .add found | .rm found => found

def friendRequest (u : UserData) : FriendRequest → Option (ResponseStatus × UserData)
  | .add found => handlerAddFriend u found
  | .rm found => handlerRmFriend u found

def friendRequestStep (u : UserData) (request : FriendRequest) : Option UserData :=
  (friendRequest u request).map Prod.snd

/-! ### What is expected -/

def WellFormedMap (map : List UInt32) : Prop := ∀ id ≠ 0, map.count id ≤ 1

/-- Inserting an id leaves it in one slot and the others as they were, or fails and changes
nothing; it fails exactly if the id is absent and there is no free slot. -/
structure InsertMeets (map : List UInt32) (id : UInt32) : Prop where
  ok : (mapInsertElement map id).1 = .ok → (mapInsertElement map id).2.count id = 1 ∧
    ∀ other, other ≠ 0 → other ≠ id → (mapInsertElement map id).2.count other = map.count other
  fail : (mapInsertElement map id).1 ≠ .ok → (mapInsertElement map id).2 = map
  fails_iff : (mapInsertElement map id).1 ≠ .ok ↔ id ∉ map ∧ 0 ∉ map

/-- Removing an id takes it out and leaves the others as they were, or fails and changes
nothing; it fails exactly if the id is absent. -/
structure RemoveMeets (map : List UInt32) (id : UInt32) : Prop where
  ok : (mapRemoveElement map id).1 = .ok → id ∉ (mapRemoveElement map id).2 ∧
    ∀ other, other ≠ 0 → other ≠ id → (mapRemoveElement map id).2.count other = map.count other
  fail : (mapRemoveElement map id).1 ≠ .ok → (mapRemoveElement map id).2 = map
  fails_iff : (mapRemoveElement map id).1 ≠ .ok ↔ id ∉ map

def InsertsMeet : List UInt32 → List UInt32 → Prop
  | _, [] => True
  | map, id :: ids => InsertMeets map id ∧
    ((mapInsertElement map id).1 = .ok → InsertsMeet (mapInsertElement map id).2 ids)

def RemovesMeet : List UInt32 → List UInt32 → Prop
  | _, [] => True
  | map, id :: ids => RemoveMeets map id ∧ RemovesMeet (mapRemoveElement map id).2 ids

namespace UserData

def Counted (u : UserData) : Prop := u.numFriends.toNat = u.friendsMap.countP (· ≠ 0)

/-- What the handlers have to keep: a set in the map, and its size in the counter. -/
structure Sound (u : UserData) : Prop where
  wellFormed : WellFormedMap u.friendsMap
  counted : u.Counted

def CallMeets (u : UserData) (request : FriendRequest) : Prop :=
  ∃ u', friendRequestStep u request = some u' ∧ u'.Sound

/-- The loops have done what they should with the users that could be read. -/
def AddsMeet (u : UserData) (result : SystemStatus) (ids : List UInt32) : Prop :=
  ∃ result' u', addFriendLoop u result ids.length ids = some (result', u') ∧
    InsertsMeet u.friendsMap ids ∧ u'.Sound

def RmsMeet (u : UserData) (result : SystemStatus) (ids : List UInt32) : Prop :=
  ∃ result' u', rmFriendLoop u result ids.length ids = some (result', u') ∧
    RemovesMeet u.friendsMap ids ∧ u'.Sound

end UserData

/-! ### Insertion -/

theorem insertLoop_eq {id : UInt32} (hid : id ≠ 0) (map : List UInt32) (i : ℕ) :
    insertLoop id map i none = (i + map.idxOf id, none) := by
  induction map generalizing i with
  | nil => rfl
  | cons x xs ih =>
    rw [insertLoop]
    by_cases hx : x = id
    · subst hx
      rw [if_pos hid, if_pos rfl, List.idxOf_cons_self]
      rfl
    · have hnone : ¬ (none : Option ℕ) ≠ none := fun h => h rfl
      rw [List.idxOf_cons_ne xs hx, if_neg (Ne.symm hx), if_neg hnone, ite_self, ih,
        Nat.add_right_comm]
      rfl

theorem mapInsertElement_eq {id : UInt32} (hid : id ≠ 0) (map : List UInt32) :
    mapInsertElement map id = if id ∈ map then (.ok, map) else (.fail, map) := by
  rw [mapInsertElement, insertLoop_eq hid, Nat.zero_add]
  dsimp only
  by_cases hmem : id ∈ map
  · rw [if_pos hmem, if_neg (fun h => List.idxOf_eq_length_iff.mp h hmem)]
  · rw [if_neg hmem, if_pos (List.idxOf_eq_length_iff.mpr hmem)]

/-- Insertion is as it should be except where an absent id has a free slot. -/
theorem insertMeets_iff {map : List UInt32} {id : UInt32} (hid : id ≠ 0)
    (hmap : WellFormedMap map) : InsertMeets map id ↔ (id ∉ map → 0 ∉ map) := by
  have heq := mapInsertElement_eq hid map
  by_cases h : id ∈ map
  · rw [if_pos h] at heq
    refine iff_of_true ?_ (absurd h)
    constructor
    · intro _
      rw [heq]
      have hpos := List.count_pos_iff.mpr h
      have hle := hmap id hid
      exact ⟨by dsimp only; omega, fun _ _ _ => rfl⟩
    · intro _
      rw [heq]
    · rw [heq]
      simp [h]
  · rw [if_neg h] at heq
    constructor
    · intro hmeets _
      exact (hmeets.fails_iff.mp (by simp [heq])).2
    · intro hfull
      constructor
      · intro hok
        rw [heq] at hok
        cases hok
      · intro _
        rw [heq]
      · rw [heq]
        simp [h, hfull h]

/-- The user with `k` friends counted more. -/
def UserData.count (u : UserData) (k : ℕ) : UserData :=
  { u with numFriends := u.numFriends + UInt32.ofNat k }

/-- The loop counts the ids at the head of its array that are in the map, and stops at the first
that is not. -/
theorem addFriendLoop_eq (u : UserData) (result : SystemStatus) {ids : List UInt32}
    (hids : 0 ∉ ids) : ∃ result', addFriendLoop u result ids.length ids =
      some (result', u.count (ids.takeWhile (· ∈ u.friendsMap)).length) := by
  induction ids generalizing u result with
  | nil => exact ⟨result, by simp [addFriendLoop, UserData.count]⟩
  | cons id ids ih =>
    have hid : id ≠ 0 := fun h => hids (by simp [h])
    have hrest : 0 ∉ ids := fun h => hids (List.mem_cons_of_mem id h)
    rw [List.length_cons, addFriendLoop, mapInsertElement_eq hid]
    by_cases h : id ∈ u.friendsMap
    · obtain ⟨result', hloop⟩ := ih ⟨u.friendsMap, u.numFriends + 1⟩ .ok hrest
      refine ⟨result', ?_⟩
      simp only [if_pos h]
      rw [if_neg (by simp), hloop, List.takeWhile_cons_of_pos (by simpa using h)]
      simp only [UserData.count, List.length_cons, UInt32.ofNat_add]
      rw [UInt32.add_assoc, UInt32.add_comm 1]
      rfl
    · exact ⟨.fail, by simp [h, UserData.count]⟩

/-- Counting fewer than `2^32` friends that are there already goes wrong. -/
theorem UserData.Counted.of_count {u : UserData} (h : u.Counted) {k : ℕ} (hk : k < UInt32.size)
    (hcount : (u.count k).Counted) : k = 0 := by
  change (u.numFriends + UInt32.ofNat k).toNat = u.friendsMap.countP (· ≠ 0) at hcount
  rw [← h] at hcount
  exact eq_zero_of_toNat_add hk hcount

/-! ### Removal -/

theorem removeLoop_eq_none {id : UInt32} {map : List UInt32} :
    removeLoop id map = none ↔ id ∉ map := by
  induction map with
  | nil => simp [removeLoop]
  | cons x xs ih =>
    rw [removeLoop]
    by_cases h : id = x
    · simp [h]
    · simp [h, ih]

theorem removeLoop_eq_some {id : UInt32} {map map' : List UInt32}
    (h : removeLoop id map = some map') :
    ∃ front back, map = front ++ id :: back ∧ id ∉ front ∧ map' = front ++ 0 :: back := by
  induction map generalizing map' with
  | nil => cases h
  | cons x xs ih =>
    rw [removeLoop] at h
    by_cases hx : id = x
    · subst hx
      rw [if_pos rfl] at h
      cases h
      exact ⟨[], xs, rfl, List.not_mem_nil, rfl⟩
    · rw [if_neg hx] at h
      obtain ⟨rest, hrest, rfl⟩ := Option.map_eq_some_iff.mp h
      obtain ⟨front, back, rfl, hfront, rfl⟩ := ih hrest
      exact ⟨x :: front, back, rfl, by simp [hx, hfront], rfl⟩

theorem mapRemoveElement_cases (map : List UInt32) (id : UInt32) :
    (∃ front back, map = front ++ id :: back ∧ id ∉ front ∧
      mapRemoveElement map id = (.ok, front ++ 0 :: back)) ∨
    id ∉ map ∧ mapRemoveElement map id = (.fail, map) := by
  cases h : removeLoop id map with
  | none => exact .inr ⟨removeLoop_eq_none.mp h, by rw [mapRemoveElement, h]⟩
  | some map' =>
    obtain ⟨front, back, hmap, hfront, rfl⟩ := removeLoop_eq_some h
    exact .inl ⟨front, back, hmap, hfront, by rw [mapRemoveElement, h]⟩

theorem removeMeets {map : List UInt32} (hmap : WellFormedMap map) {id : UInt32} (hid : id ≠ 0) :
    RemoveMeets map id := by
  rcases mapRemoveElement_cases map id with ⟨front, back, rfl, hfront, heq⟩ | ⟨hmem, heq⟩
  · have hback : id ∉ back := by
      intro h
      have hle := hmap id hid
      have hpos := List.count_pos_iff.mpr h
      rw [List.count_append, List.count_cons_self] at hle
      omega
    constructor
    · intro _
      rw [heq]
      constructor
      · simp [hfront, hid, hback]
      · intro other h0 hother
        simp [List.count_append, h0.symm, Ne.symm hother]
    · rw [heq]
      intro hne
      exact absurd rfl hne
    · rw [heq]
      simp
  · constructor
    · rw [heq]
      intro hok
      cases hok
    · rw [heq]
      intro _
      rfl
    · rw [heq]
      simp [hmem]

theorem UserData.Sound.remove {u : UserData} (h : u.Sound) {id : UInt32} (hid : id ≠ 0) :
    UserData.Sound ⟨(mapRemoveElement u.friendsMap id).2,
      if (mapRemoveElement u.friendsMap id).1 = .ok then u.numFriends - 1 else u.numFriends⟩ := by
  rcases mapRemoveElement_cases u.friendsMap id with ⟨front, back, hmap, -, heq⟩ | ⟨-, heq⟩
  · rw [heq]
    have hcount := h.counted
    rw [UserData.Counted, hmap] at hcount
    constructor
    · intro other h0
      have hle := h.wellFormed other h0
      rw [hmap, List.count_append, List.count_cons] at hle
      change (front ++ 0 :: back).count other ≤ 1
      rw [List.count_append, List.count_cons_of_ne h0.symm]
      omega
    · change (u.numFriends - 1).toNat = (front ++ 0 :: back).countP (· ≠ 0)
      rw [List.countP_append, List.countP_cons_of_pos (by simpa using hid)] at hcount
      have hpred := toNat_pred (n := u.numFriends) (by omega)
      rw [List.countP_append, List.countP_cons_of_neg (by simp)]
      omega
  · rw [heq]
    exact h

/-- The loop that removes meets its specification whatever users it reads. -/
theorem UserData.Sound.rmsMeet {u : UserData} (h : u.Sound) (result : SystemStatus)
    {ids : List UInt32} (hids : 0 ∉ ids) : u.RmsMeet result ids := by
  induction ids generalizing u result with
  | nil => exact ⟨result, u, rfl, trivial, h⟩
  | cons id ids ih =>
    have hid : id ≠ 0 := fun h => hids (by simp [h])
    have hrest : 0 ∉ ids := fun h => hids (List.mem_cons_of_mem id h)
    obtain ⟨result', u', hloop, hmeets, hsound⟩ :=
      ih (h.remove hid) (mapRemoveElement u.friendsMap id).1 hrest
    exact ⟨result', u', hloop, ⟨removeMeets h.wellFormed hid, hmeets⟩, hsound⟩

/-! ### The loops and the handlers -/

namespace UserData

variable {u : UserData} {request : FriendRequest}

theorem count_zero (u : UserData) : u.count 0 = u := by
  simp [count]

/-- A first user who is there already is counted again. -/
theorem Sound.first_not_mem (h : u.Sound) {id : UInt32} {ids : List UInt32}
    (hlength : (id :: ids).length < UInt32.size)
    (hcounted : (u.count ((id :: ids).takeWhile (· ∈ u.friendsMap)).length).Counted) :
    id ∉ u.friendsMap := by
  intro hmem
  have hle := (List.takeWhile_sublist (· ∈ u.friendsMap) (l := id :: ids)).length_le
  have hzero := h.counted.of_count (lt_of_le_of_lt hle hlength) hcounted
  rw [List.takeWhile_cons_of_pos (by simpa using hmem)] at hzero
  cases hzero

/-- The loop that adds meets its specification exactly if it reads no user, or first one that is
not in the map when the map is full. -/
theorem Sound.addsMeet_iff (h : u.Sound) (result : SystemStatus) {ids : List UInt32}
    (hids : 0 ∉ ids) (hlength : ids.length < UInt32.size) :
    u.AddsMeet result ids ↔ ∀ id ∈ ids.head?, id ∉ u.friendsMap ∧ 0 ∉ u.friendsMap := by
  obtain ⟨result', hloop⟩ := addFriendLoop_eq u result hids
  cases ids with
  | nil => exact iff_of_true ⟨result, u, rfl, trivial, h⟩ (by simp)
  | cons id ids =>
    have hid : id ≠ 0 := fun h => hids (by simp [h])
    constructor
    · rintro ⟨_, u', hloop', hcalls, hsound⟩ _ ⟨⟩
      obtain ⟨-, rfl⟩ := Prod.mk.inj (Option.some.inj (hloop.symm.trans hloop'))
      have hmem := h.first_not_mem hlength hsound.counted
      exact ⟨hmem, (insertMeets_iff hid h.wellFormed).mp hcalls.1 hmem⟩
    · intro hfirst
      obtain ⟨hmem, hfull⟩ := hfirst id rfl
      rw [List.takeWhile_cons_of_neg (by simpa using hmem), List.length_nil, count_zero] at hloop
      refine ⟨result', u, hloop, ⟨(insertMeets_iff hid h.wellFormed).mpr fun _ => hfull, ?_⟩, h⟩
      intro hok
      rw [mapInsertElement_eq hid, if_neg hmem] at hok
      cases hok

theorem addFriendLoop_null (u : UserData) (result : SystemStatus) (numUsers : UInt32) :
    addFriendLoop u result numUsers.toNat [] = if numUsers = 0 then some (result, u) else none := by
  by_cases hzero : numUsers = 0
  · rw [if_pos hzero, hzero]
    rfl
  · rw [if_neg hzero]
    cases hn : numUsers.toNat with
    | zero => exact absurd (UInt32.toNat_inj.mp hn) hzero
    | succ left => rfl

theorem rmFriendLoop_null (u : UserData) (result : SystemStatus) (numUsers : UInt32) :
    rmFriendLoop u result numUsers.toNat [] = if numUsers = 0 then some (result, u) else none := by
  by_cases hzero : numUsers = 0
  · rw [if_pos hzero, hzero]
    rfl
  · rw [if_neg hzero]
    cases hn : numUsers.toNat with
    | zero => exact absurd (UInt32.toNat_inj.mp hn) hzero
    | succ left => rfl

theorem friendRequestStep_eq (u : UserData) (request : FriendRequest) :
    friendRequestStep u request = if request.found.numUsers = 0 then some u else none := by
  cases request with
  | add found =>
    rw [friendRequestStep, friendRequest, handlerAddFriend, addFriendLoop_null,
      FriendRequest.found]
    split_ifs <;> rfl
  | rm found =>
    rw [friendRequestStep, friendRequest, handlerRmFriend, rmFriendLoop_null, FriendRequest.found]
    split_ifs <;> rfl

/-- A request is carried out as it should be exactly if it finds no user. -/
theorem Sound.callMeets_iff (h : u.Sound) : u.CallMeets request ↔ request.found.numUsers = 0 := by
  rw [CallMeets, friendRequestStep_eq]
  constructor
  · rintro ⟨u', hu', -⟩
    by_contra hfound
    rw [if_neg hfound] at hu'
    cases hu'
  · intro hnone
    exact ⟨u, if_pos hnone, h⟩

theorem Sound.step {u' : UserData} (h : u.Sound) (hstep : friendRequestStep u request = some u') :
    u'.Sound := by
  rw [friendRequestStep_eq] at hstep
  split_ifs at hstep
  exact Option.some.inj hstep ▸ h

end UserData

/-- Insertion is that of a bounded set except where an absent id has a free slot, and removal
always is. The loops keep the map and its size with whatever users they can read, only that an id
that is there already is counted again. But in a run of requests they read through NULL: all
requests are as they should be exactly if none of them finds a user. -/
theorem friend_run_bounded_set {u : UserData} (hmap : WellFormedMap u.friendsMap)
    (hcounted : u.Counted) :
    (∀ map id, id ≠ 0 → WellFormedMap map →
      (InsertMeets map id ↔ (id ∉ map → 0 ∉ map)) ∧ RemoveMeets map id) ∧
    (∀ result ids, 0 ∉ ids → ids.length < UInt32.size →
      (u.AddsMeet result ids ↔ ∀ id ∈ ids.head?, id ∉ u.friendsMap ∧ 0 ∉ u.friendsMap) ∧
        u.RmsMeet result ids) ∧
    ∀ requests,
      (Along friendRequestStep UserData.CallMeets u requests ↔
        Along friendRequestStep (fun _ request => request.found.numUsers = 0) u requests) ∧
      ∀ u', runFrom friendRequestStep u requests = some u' →
        WellFormedMap u'.friendsMap ∧ u'.Counted := by
  have hsound : u.Sound := ⟨hmap, hcounted⟩
  refine ⟨?_, ?_, ?_⟩
  · intro map id hid hmap
    exact ⟨insertMeets_iff hid hmap, removeMeets hmap hid⟩
  · intro result ids hids hlength
    exact ⟨hsound.addsMeet_iff result hids hlength, hsound.rmsMeet result hids⟩
  · intro requests
    have hstep : ∀ (u : UserData) request u', u.Sound →
        friendRequestStep u request = some u' → u'.Sound := fun u request u' h hs => h.step hs
    constructor
    · exact along_iff_of_invariant (fun u request u' h _ => hstep u request u' h)
        (fun u request h => h.callMeets_iff) hsound
    · intro u' hrun
      have hend := runFrom_invariant_of_step hstep hsound hrun
      exact ⟨hend.wellFormed, hend.counted⟩

/-- Nobody is added to a full map, one friend is dropped, and two requests find nobody. -/
theorem friend_run_bounded_set_example :
    (InsertMeets [5, 7] 9 ∧ RemoveMeets [5, 7] 5) ∧ UserData.RmsMeet ⟨[5, 7], 2⟩ .ok [7, 9] ∧
      Along friendRequestStep UserData.CallMeets ⟨[5, 7], 2⟩ [.add ⟨.fail, 0⟩, .rm ⟨.ok, 0⟩] := by
  have hmap : WellFormedMap [5, 7] := fun id _ => List.nodup_iff_count_le_one.mp (by decide) id
  have hcounted : UserData.Counted ⟨[5, 7], 2⟩ := rfl
  obtain ⟨hcalls, hloops, hruns⟩ := friend_run_bounded_set hmap hcounted
  refine ⟨?_, (hloops .ok [7, 9] (by decide) (by decide)).2, (hruns _).1.mpr ?_⟩
  · exact ⟨(hcalls _ 9 (by decide) hmap).1.mpr (by decide), (hcalls _ 5 (by decide) hmap).2⟩
  · exact ⟨rfl, fun _ _ => ⟨rfl, fun _ _ => trivial⟩⟩

/-- Neither handler comes back when a user is found, a free slot is not taken, and a friend who is
there already would be counted twice. -/
theorem friend_run_not_bounded_set :
    ¬ Along friendRequestStep UserData.CallMeets ⟨[0], 0⟩ [.add ⟨.ok, 1⟩] ∧
      ¬ Along friendRequestStep UserData.CallMeets ⟨[7], 1⟩ [.rm ⟨.ok, 1⟩] ∧
      ¬ InsertMeets [0] 7 ∧ addFriendLoop ⟨[7], 1⟩ .ok 1 [7] = some (.ok, ⟨[7], 2⟩) := by
  refine ⟨?_, ?_, ?_, rfl⟩
  · rintro ⟨⟨u', hu', -⟩, -⟩
    cases hu'
  · rintro ⟨⟨u', hu', -⟩, -⟩
    cases hu'
  · intro hinsert
    exact absurd (hinsert.fails_iff.mp (by decide)).2 (by decide)

end MorningProjects.ELibrary
