import MorningProjects.ELibrary.UserHistory
import MorningProjects.Library.While

/-!
# The activities of all friends

`mergeActy` inserts copies of the friends' activities into a list of its own, and walks it
with a pointer that is NULL while the list is empty. It is given its outputs by value and
writes none of them, and it takes the list of friends for an array.
-/
namespace MorningProjects.ELibrary
open Library

def maxActiesAmount : UInt32 := 12

/-! ### The list in the making -/

/-- A node of the list; a copied entry keeps no tie to the history it comes from. -/
structure MergeNode where
  acty : Acty
  next : Option ℕ

/-- The variables that outlive the insertion of an activity, the nodes by address, and the
`malloc` calls so far. -/
structure Merge where
  node : ℕ → Option MergeNode
  actiesTemp : Option ℕ
  count : UInt32
  result : SystemStatus
  mallocs : ℕ

def Merge.start : Merge := ⟨fun _ => none, none, 0, .ok, 0⟩

/-- The walk over the list: its pointers, and whether it was left by `break`. -/
structure MergeWalk where
  ptr : Option ℕ
  prv : Option ℕ
  left : Bool
  merge : Merge

def Merge.deref (m : Merge) (ptr : Option ℕ) : Option MergeNode := ptr.bind m.node

/-- A new node between `prv` and what follows `ptr`. -/
def MergeWalk.insert (a : ℕ) (current : Acty) (w : MergeWalk) : Option MergeWalk := do
  let next ← match w.ptr with
    | none => some none
    | some _ => (w.merge.deref w.ptr).map MergeNode.next
  let node := Function.update w.merge.node a (some ⟨current, next⟩)
  let node ← match w.prv with
    | none => some node
    | some p => (node p).map fun prv => Function.update node p (some { prv with next := some a })
  let actiesTemp := if w.prv = w.merge.actiesTemp then some a else w.merge.actiesTemp
  let merge := { w.merge with
    node := node, actiesTemp := actiesTemp, count := w.merge.count + 1 }
  return { w with merge := merge }

def MergeWalk.wants (current : Acty) (w : MergeWalk) : Option Bool :=
  if 0 = w.merge.count then some true
  else (w.merge.deref w.ptr).map fun node =>
    node.acty.timestamp < current.timestamp && w.merge.count < maxActiesAmount

def MergeWalk.advance (w : MergeWalk) : Option MergeWalk :=
  (w.merge.deref w.ptr).map fun node => { w with prv := w.ptr, ptr := node.next }

/-- The body of the walk; an access through NULL has no result. -/
def mergeBody (malloc : ℕ → Option ℕ) (current : Acty) (w : MergeWalk) : Option MergeWalk :=
  (w.wants current).bind fun wants =>
    if wants then
      let merge := { w.merge with mallocs := w.merge.mallocs + 1 }
      match malloc w.merge.mallocs with
      | none => some { w with left := true, merge := { merge with result := .fail } }
      | some a => ({ w with merge := merge }.insert a current).bind MergeWalk.advance
    else w.advance

def MergeWalk.goesOn (w : MergeWalk) : Bool := !w.left && w.ptr.isSome

/-- The insertion of an activity, if the walk ends within the given number of rounds. -/
def mergeInsert (rounds : ℕ) (malloc : ℕ → Option ℕ) (m : Merge) (current : Acty) : Option Merge :=
  ((mergeBody malloc current ⟨m.actiesTemp, m.actiesTemp, false, m⟩).bind
    (whileWithin MergeWalk.goesOn (mergeBody malloc current) rounds)).map MergeWalk.merge

/-- The loop over `numActy` activities of a friend, from `current` on. -/
def mergeFriend (rounds : ℕ) (malloc : ℕ → Option ℕ) : ℕ → List Acty → Merge → Option Merge
  | 0, _, m => some m
  | _ + 1, [], _ => none
  | numActy + 1, current :: rest, m =>
    (mergeInsert rounds malloc m current).bind (mergeFriend rounds malloc numActy rest)

/-- `host->friends[i].user`; behind the first node of the list there is no other. -/
def friendAt (friends : List ℕ) (i : ℕ) : Option ℕ := if i = 0 then friends.head? else none

structure MergeResult where
  result : SystemStatus
  activities : List Acty
  counter : UInt32

def mergeActy (rounds : ℕ) (malloc : ℕ → Option ℕ) (s : ActyServer) (host : ℕ)
    (activities : List Acty) (counter : UInt32) : Option MergeResult :=
  ((List.range (s.server.user host).numFrds.toNat).foldlM (fun m i =>
    (friendAt (s.server.user host).friends i).bind fun friend =>
      mergeFriend rounds malloc (s.numActy friend).toNat (s.activity friend) m) Merge.start).map
    fun m => ⟨m.result, activities, counter⟩

/-! ### What has to hold -/

/-- The latest of some activities, newest first, as many as may be shown. -/
structure IsNewest (all newest : List Acty) : Prop where
  length : newest.length = min maxActiesAmount.toNat all.length
  sorted : newest.Pairwise fun x y => y.timestamp ≤ x.timestamp
  latest : ∃ older, (newest ++ older).Perm all ∧
    ∀ x ∈ newest, ∀ y ∈ older, y.timestamp ≤ x.timestamp

def ActyServer.friendActies (s : ActyServer) (host : ℕ) : List Acty :=
  (s.server.user host).friends.flatMap s.activity

def MergeMeets (malloc : ℕ → Option ℕ) (s : ActyServer) (host : ℕ) (activities : List Acty)
    (counter : UInt32) : Prop :=
  ∃ rounds r, mergeActy rounds malloc s host activities counter = some r ∧
    IsNewest (s.friendActies host) r.activities ∧ r.counter.toNat = r.activities.length

/-- The list of friends has `numFrds` nodes, and every history `numActy`. -/
structure ActyServer.Befriended (s : ActyServer) (host : ℕ) : Prop where
  friends : (s.server.user host).numFrds.toNat = (s.server.user host).friends.length
  acties : ∀ f ∈ (s.server.user host).friends, (s.numActy f).toNat = (s.activity f).length

/-! ### The first insertion -/

section Insert

variable {rounds : ℕ} {malloc : ℕ → Option ℕ} {m : Merge} {current : Acty}

theorem mergeInsert_none (hcount : m.count = 0) (hmem : malloc m.mallocs = none) :
    mergeInsert rounds malloc m current =
      some { m with mallocs := m.mallocs + 1, result := .fail } := by
  rw [mergeInsert, mergeBody, MergeWalk.wants]
  simp only [hcount, if_true, Option.bind_some, hmem]
  rw [whileWithin_of_not rfl]
  rfl

theorem mergeInsert_some {a : ℕ} (hempty : m.actiesTemp = none) (hcount : m.count = 0)
    (hmem : malloc m.mallocs = some a) : mergeInsert rounds malloc m current = none := by
  rw [mergeInsert, mergeBody, MergeWalk.wants]
  simp only [hcount, hempty, if_true, Option.bind_some, hmem]
  rfl

/-- The activities of a friend go through exactly when there is memory for none of them. -/
theorem mergeFriend_empty (rounds : ℕ) (malloc : ℕ → Option ℕ) (acties : List Acty)
    (hempty : m.actiesTemp = none) (hcount : m.count = 0) :
    (∃ m', mergeFriend rounds malloc acties.length acties m = some m') ↔
      ∀ k < acties.length, malloc (m.mallocs + k) = none := by
  induction acties generalizing m with
  | nil => exact ⟨fun _ k hk => absurd hk (Nat.not_lt_zero k), fun _ => ⟨m, rfl⟩⟩
  | cons current rest ih =>
    rw [List.length_cons, mergeFriend]
    cases hmem : malloc m.mallocs with
    | none =>
      rw [mergeInsert_none hcount hmem, Option.bind_some,
        ih (m := { m with mallocs := m.mallocs + 1, result := .fail }) hempty hcount]
      constructor
      · intro h k hk
        cases k with
        | zero => exact hmem
        | succ k =>
          rw [← h k (by omega)]
          congr 1
          dsimp only
          omega
      · intro h k hk
        rw [← h (k + 1) (by omega)]
        congr 1
        dsimp only
        omega
    | some a =>
      rw [mergeInsert_some hempty hcount hmem]
      constructor
      · rintro ⟨m', hm'⟩
        cases hm'
      · intro h
        have hzero := h 0 (Nat.zero_lt_succ _)
        rw [Nat.add_zero, hmem] at hzero
        cases hzero

end Insert

/-! ### The merge -/

theorem foldlM_eq_none {α β : Type*} {f : β → α → Option β} {l : List α} {a : α} (ha : a ∈ l)
    (hf : ∀ b, f b a = none) (b : β) : l.foldlM f b = none := by
  induction l generalizing b with
  | nil => cases ha
  | cons x l ih =>
    rw [List.foldlM_cons]
    rcases List.mem_cons.mp ha with rfl | ha
    · rw [hf b]
      rfl
    · cases hx : f b x with
      | none => rfl
      | some b' => exact ih ha b'

section Run

variable {rounds : ℕ} {malloc : ℕ → Option ℕ} {s : ActyServer} {host : ℕ} {activities : List Acty}
  {counter : UInt32}

theorem mergeActy_outputs {r : MergeResult}
    (hr : mergeActy rounds malloc s host activities counter = some r) :
    r.activities = activities ∧ r.counter = counter := by
  obtain ⟨m, -, rfl⟩ := Option.map_eq_some_iff.mp hr
  exact ⟨rfl, rfl⟩

/-- The call comes back exactly for a host without friends, and for one with a single friend
when there is memory for none of the friend's activities. -/
theorem mergeActy_isSome_iff (h : s.Befriended host) :
    (∃ r, mergeActy rounds malloc s host activities counter = some r) ↔
      (s.server.user host).friends = [] ∨ ∃ f, (s.server.user host).friends = [f] ∧
        ∀ k < (s.activity f).length, malloc k = none := by
  rw [mergeActy, h.friends]
  cases hfriends : (s.server.user host).friends with
  | nil => exact ⟨fun _ => Or.inl rfl, fun _ => ⟨_, rfl⟩⟩
  | cons f friends =>
    cases friends with
    | nil =>
      have hacties : (s.numActy f).toNat = (s.activity f).length :=
        h.acties f (by rw [hfriends]; exact List.mem_cons_self)
      have hmerge := mergeFriend_empty rounds malloc (s.activity f) (m := .start) rfl rfl
      have hone : (List.range [f].length).foldlM (fun m i =>
          (friendAt [f] i).bind fun friend =>
            mergeFriend rounds malloc (s.numActy friend).toNat (s.activity friend) m)
          Merge.start = mergeFriend rounds malloc (s.activity f).length (s.activity f) .start := by
        rw [← hacties, List.length_singleton, List.range_one, List.foldlM_cons]
        exact bind_pure _
      rw [hone]
      constructor
      · rintro ⟨r, hr⟩
        obtain ⟨m, hm, -⟩ := Option.map_eq_some_iff.mp hr
        refine Or.inr ⟨f, rfl, fun k hk => ?_⟩
        have hnone := hmerge.mp ⟨m, hm⟩ k hk
        rwa [Merge.start, Nat.zero_add] at hnone
      · rintro (hnil | ⟨g, hone, hnone⟩)
        · cases hnil
        · cases hone
          obtain ⟨m, hm⟩ := hmerge.mpr fun k hk => by
            rw [Merge.start, Nat.zero_add]
            exact hnone k hk
          exact ⟨_, by rw [hm, Option.map_some]⟩
    | cons f' friends =>
      have hnone : (List.range (f :: f' :: friends).length).foldlM (fun m i =>
          (friendAt (f :: f' :: friends) i).bind fun friend =>
            mergeFriend rounds malloc (s.numActy friend).toNat (s.activity friend) m)
          Merge.start = none := by
        apply foldlM_eq_none (List.mem_range.mpr (by simp : 1 < (f :: f' :: friends).length))
        intro m
        rfl
      rw [hnone]
      constructor
      · rintro ⟨r, hr⟩
        cases hr
      · rintro (hnil | ⟨g, hone, -⟩)
        · cases hnil
        · cases hone

end Run

/-- The latest activities are delivered exactly when the walk is never begun with memory, and the
outputs hold them already. -/
theorem mergeActy_meets_iff (malloc : ℕ → Option ℕ) (s : ActyServer) (host : ℕ)
    (activities : List Acty) (counter : UInt32) (h : s.Befriended host) :
    MergeMeets malloc s host activities counter ↔
      ((s.server.user host).friends = [] ∨ ∃ f, (s.server.user host).friends = [f] ∧
        ∀ k < (s.activity f).length, malloc k = none) ∧
      IsNewest (s.friendActies host) activities ∧ counter.toNat = activities.length := by
  constructor
  · rintro ⟨rounds, r, hr, hnewest, hcounter⟩
    obtain ⟨hactivities, hcount⟩ := mergeActy_outputs hr
    rw [hactivities] at hnewest hcounter
    rw [hcount] at hcounter
    exact ⟨(mergeActy_isSome_iff h).mp ⟨r, hr⟩, hnewest, hcounter⟩
  · rintro ⟨hcomes, hnewest, hcounter⟩
    have hsome : ∃ r, mergeActy 0 malloc s host activities counter = some r :=
      (mergeActy_isSome_iff h).mpr hcomes
    obtain ⟨r, hr⟩ := hsome
    obtain ⟨hactivities, hcount⟩ := mergeActy_outputs hr
    refine ⟨0, r, hr, ?_, ?_⟩
    · rwa [hactivities]
    · rwa [hactivities, hcount]

def befriended (friends : List ℕ) : ActyServer :=
  actyRun (readers.server.setUser 0 { readers.server.user 0 with
    friends := friends, numFrds := UInt32.ofNat friends.length }) [wowingDune]

/-- Al has no activities. -/
theorem mergeActy_meets_al : MergeMeets some (befriended [2]) 0 [] 0 := by
  have hal : (befriended [2]).Befriended 0 := by
    refine ⟨by decide, fun f hf => ?_⟩
    obtain rfl := List.mem_singleton.mp hf
    decide
  refine (mergeActy_meets_iff some (befriended [2]) 0 [] 0 hal).mpr ⟨Or.inr ⟨2, rfl, ?_⟩, ?_, rfl⟩
  · exact fun k hk => absurd hk (Nat.not_lt_zero k)
  · exact ⟨rfl, List.Pairwise.nil, [], List.Perm.nil, fun x hx => absurd hx List.not_mem_nil⟩

/-- With memory the wow of Eve ends the call, and so does a second friend. -/
theorem mergeActy_not_meets :
    ((befriended [1]).Befriended 0 ∧ ¬ MergeMeets some (befriended [1]) 0 [] 0) ∧
      (befriended [2, 1]).Befriended 0 ∧ ¬ MergeMeets some (befriended [2, 1]) 0 [] 0 := by
  have heve : (befriended [1]).Befriended 0 := by
    refine ⟨by decide, fun f hf => ?_⟩
    obtain rfl := List.mem_singleton.mp hf
    decide
  have hboth : (befriended [2, 1]).Befriended 0 := by
    refine ⟨by decide, fun f hf => ?_⟩
    rcases List.mem_cons.mp hf with rfl | hf
    · decide
    · obtain rfl := List.mem_singleton.mp hf
      decide
  refine ⟨⟨heve, ?_⟩, hboth, ?_⟩
  · rintro ⟨rounds, r, hr, -⟩
    rcases (mergeActy_isSome_iff heve).mp ⟨r, hr⟩ with hnil | ⟨f, hone, hnone⟩
    · exact absurd hnil (by decide)
    · obtain rfl : f = 1 := (List.singleton_inj.mp hone).symm
      exact absurd (hnone 0 (by decide)) (by decide)
  · rintro ⟨rounds, r, hr, -⟩
    rcases (mergeActy_isSome_iff hboth).mp ⟨r, hr⟩ with hnil | ⟨f, hone, -⟩
    · exact absurd hnil (by decide)
    · have hlength := congrArg List.length hone
      cases hlength

end MorningProjects.ELibrary
