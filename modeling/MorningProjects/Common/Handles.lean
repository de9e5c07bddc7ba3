import MorningProjects.Common.Status
import MorningProjects.Library.Runs
import Mathlib.Logic.Function.Basic

/-!
# Handles of trees and hash tables

All four kinds of object share the table `p_trees` and its counter. The counter
never stops at the end of the table, and the base value of a handle does not fit
into its eight bits: a handle is the number of objects created before.
-/
namespace MorningProjects.Common
open Library

def maxObjects : ℕ := 128

def handleBaseTree : UInt32 := 0x10000000

def handleCounterMask : UInt32 := 0xFF

variable {A : Type*}

/-- `p_trees`, with NULL as no address, and the counter of `COMMON_handle_create`. -/
structure HandleTable (A : Type*) where
  pTrees : Fin maxObjects → Option A
  counter : UInt8

def HandleTable.init : HandleTable A := ⟨fun _ => none, 0⟩

/-- `COMMON_handle_create`; no result when it writes past the table. -/
def commonHandleCreate (t : HandleTable A) (ptr : A) : Option (UInt8 × HandleTable A) :=
  if h : t.counter.toNat < maxObjects then
    some ((handleBaseTree ||| t.counter.toUInt32).toUInt8,
      ⟨Function.update t.pTrees ⟨t.counter.toNat, h⟩ (some ptr), t.counter + 1⟩)
  else none

/-- `COMMON_object_retrieve`; no result when it reads past the table. -/
def commonObjectRetrieve (t : HandleTable A) (handle : UInt8) : Option (Option A) :=
  let index := handle.toUInt32 &&& handleCounterMask
  if h : index.toNat < maxObjects then some (t.pTrees ⟨index.toNat, h⟩) else none

def treeCreate (t : HandleTable A) (malloc : Option A) :
    Option (ExitStatus × Option UInt8 × HandleTable A) :=
  match malloc with
  | none => some (.failure, none, t)
  | some tree => (commonHandleCreate t tree).map fun (handle, t) => (.success, some handle, t)

def bstreeCreate (t : HandleTable A) (malloc : Option A) :
    Option (ExitStatus × Option UInt8 × HandleTable A) := treeCreate t malloc

def avltreeCreate (t : HandleTable A) (malloc : Option A) :
    Option (ExitStatus × Option UInt8 × HandleTable A) := treeCreate t malloc

def rbtreeCreate (t : HandleTable A) (malloc : Option A) :
    Option (ExitStatus × Option UInt8 × HandleTable A) := treeCreate t malloc

/-- `HT_create`; `callbacks` is false when one of them is NULL. -/
def htCreate (t : HandleTable A) (callbacks : Bool) (malloc : Option A) :
    Option (SystemStatus × Option UInt8 × HandleTable A) :=
  if callbacks then
    match malloc with
    | none => some (.fail, none, t)
    | some ht => (commonHandleCreate t ht).map fun (handle, t) => (.ok, some handle, t)
  else some (.fail, none, t)

/-- A call that creates an object, with the address `malloc` answers. -/
inductive Creation (A : Type*) where
  | bstree (malloc : Option A)
  | avltree (malloc : Option A)
  | rbtree (malloc : Option A)
  | hashtable (callbacks : Bool) (malloc : Option A)

/-- Whether the call reports success, the handle, and the table afterwards. -/
def create (t : HandleTable A) : Creation A → Option (Bool × Option UInt8 × HandleTable A)
  | .bstree malloc => (bstreeCreate t malloc).map fun (status, r) => (status = .success, r)
  | .avltree malloc => (avltreeCreate t malloc).map fun (status, r) => (status = .success, r)
  | .rbtree malloc => (rbtreeCreate t malloc).map fun (status, r) => (status = .success, r)
  | .hashtable callbacks malloc =>
    (htCreate t callbacks malloc).map fun (status, r) => (status = .ok, r)

def Creation.object : Creation A → Option A
  | .bstree malloc => malloc
  | .avltree malloc => malloc
  | .rbtree malloc => malloc
  | .hashtable callbacks malloc => if callbacks then malloc else none

/-! ### Runs -/

/-- The table and the objects created, with their handles, the oldest first. -/
structure HandleState (A : Type*) where
  table : HandleTable A
  created : List (UInt8 × A)

def HandleState.init : HandleState A := ⟨HandleTable.init, []⟩

def createStep (s : HandleState A) (c : Creation A) : Option (HandleState A) :=
  (create s.table c).map fun (_, handle, table) =>
    ⟨table, s.created ++ (handle.bind fun h => c.object.map fun a => (h, a)).toList⟩

structure HandleState.Retrieves (s : HandleState A) : Prop where
  retrieve : ∀ h a, (h, a) ∈ s.created → commonObjectRetrieve s.table h = some (some a)
  distinct : (s.created.map Prod.fst).Nodup

/-- A creation stays in the table, and with success its object gets a handle of its own;
without it nothing is stored. -/
def HandleState.CallMeets (s : HandleState A) (c : Creation A) : Prop :=
  ∃ success handle table s', create s.table c = some (success, handle, table) ∧
    createStep s c = some s' ∧ s'.Retrieves ∧
    (success = true → ∃ h a, handle = some h ∧ c.object = some a ∧
      s'.created = s.created ++ [(h, a)]) ∧
    (success = false → s' = s)

/-! ### What the handle keeps of the counter -/

theorem handle_eq (counter : UInt8) : (handleBaseTree ||| counter.toUInt32).toUInt8 = counter := by
  rw [UInt32.toUInt8_or, UInt8.toUInt8_toUInt32]
  exact UInt8.zero_or

theorem toNat_index (handle : UInt8) :
    (handle.toUInt32 &&& handleCounterMask).toNat = handle.toNat := by
  have hlt := handle.toNat_lt
  rw [UInt32.toNat_and, UInt8.toNat_toUInt32]
  exact (Nat.and_two_pow_sub_one_eq_mod _ 8).trans (Nat.mod_eq_of_lt hlt)

theorem commonObjectRetrieve_eq (t : HandleTable A) {handle : UInt8}
    (h : handle.toNat < maxObjects) :
    commonObjectRetrieve t handle = some (t.pTrees ⟨handle.toNat, h⟩) := by
  have hindex := toNat_index handle
  rw [commonObjectRetrieve, dif_pos (by rwa [hindex])]
  simp only [hindex]

theorem create_eq (t : HandleTable A) (c : Creation A) :
    create t c = match c.object with
      | none => some (false, none, t)
      | some a => (commonHandleCreate t a).map fun (handle, t) => (true, some handle, t) := by
  have htree : ∀ malloc : Option A, (treeCreate t malloc).map
      (fun (status, r) => (decide (status = .success), r)) = match malloc with
      | none => some (false, none, t)
      | some a => (commonHandleCreate t a).map fun (handle, t) => (true, some handle, t) := by
    intro malloc
    cases malloc with
    | none => rfl
    | some a =>
      rw [treeCreate, Option.map_map]
      rfl
  cases c with
  | bstree malloc => exact htree malloc
  | avltree malloc => exact htree malloc
  | rbtree malloc => exact htree malloc
  | hashtable callbacks malloc =>
    cases callbacks with
    | false => rfl
    | true =>
      cases malloc with
      | none => rfl
      | some a =>
        rw [create, htCreate, if_pos rfl, Option.map_map]
        rfl

/-- The invariant: the counter and the handles number the objects created. -/
structure HandleState.Numbered (s : HandleState A) : Prop where
  counter : s.table.counter.toNat = s.created.length
  fits : s.created.length ≤ maxObjects
  handles : s.created.map (fun p => p.1.toNat) = List.range s.created.length
  retrieve : ∀ h a, (h, a) ∈ s.created → commonObjectRetrieve s.table h = some (some a)

theorem HandleState.numbered_init : (HandleState.init : HandleState A).Numbered := by
  constructor
  · rfl
  · exact Nat.zero_le _
  · rfl
  · intro h a hmem
    cases hmem

namespace HandleState.Numbered

variable {s : HandleState A} (hs : s.Numbered)
include hs

theorem lt_of_mem {h : UInt8} {a : A} (hmem : (h, a) ∈ s.created) :
    h.toNat < s.created.length := by
  have hrange := List.mem_map_of_mem (f := fun p => p.1.toNat) hmem
  rw [hs.handles] at hrange
  exact List.mem_range.mp hrange

theorem retrieves : s.Retrieves := by
  refine ⟨hs.retrieve, ?_⟩
  have hnodup : ((s.created.map Prod.fst).map UInt8.toNat).Nodup := by
    rw [List.map_map]
    exact hs.handles ▸ List.nodup_range
  exact hnodup.of_map

end HandleState.Numbered

/-! ### One creation -/

namespace HandleState

variable {s : HandleState A} {c : Creation A} {a : A}

def store (s : HandleState A) (h : s.table.counter.toNat < maxObjects) (a : A) :
    HandleState A :=
  ⟨⟨Function.update s.table.pTrees ⟨s.table.counter.toNat, h⟩ (some a), s.table.counter + 1⟩,
    s.created ++ [(s.table.counter, a)]⟩

theorem Numbered.store (hs : s.Numbered) (h : s.table.counter.toNat < maxObjects) (a : A) :
    (s.store h a).Numbered := by
  have hroom : s.created.length < maxObjects := hs.counter ▸ h
  constructor
  · change (s.table.counter + 1).toNat = (s.created ++ [(s.table.counter, a)]).length
    have hlt : s.created.length < 128 := hroom
    rw [UInt8.toNat_add, hs.counter, List.length_append]
    change (s.created.length + 1) % 256 = s.created.length + 1
    omega
  · change (s.created ++ [(s.table.counter, a)]).length ≤ maxObjects
    rw [List.length_append]
    exact hroom
  · change (s.created ++ [(s.table.counter, a)]).map _ = List.range (s.created ++ _).length
    rw [List.map_append, List.length_append, hs.handles]
    simp [List.range_succ, hs.counter]
  · intro handle b hmem
    rcases List.mem_append.mp hmem with hmem | hmem
    · have hlt := hs.lt_of_mem hmem
      have hold := hs.retrieve handle b hmem
      have hfit : handle.toNat < maxObjects := lt_trans hlt hroom
      rw [commonObjectRetrieve_eq _ hfit] at hold ⊢
      change some (Function.update s.table.pTrees _ (some a) ⟨handle.toNat, hfit⟩) = _
      rw [Function.update_of_ne, hold]
      intro heq
      have hval := Fin.mk.inj heq
      rw [hs.counter] at hval
      omega
    · cases List.mem_singleton.mp hmem
      rw [commonObjectRetrieve_eq _ h]
      exact congrArg some (Function.update_self ..)

theorem callMeets_of_none (hs : s.Numbered) (hc : c.object = none) :
    createStep s c = some s ∧ s.CallMeets c := by
  have hcreate : create s.table c = some (false, none, s.table) := by rw [create_eq, hc]
  have hstep : createStep s c = some s := by
    rw [createStep, hcreate]
    simp
  refine ⟨hstep, _, _, _, _, hcreate, hstep, hs.retrieves, ?_, fun _ => rfl⟩
  intro hsuccess
  cases hsuccess

theorem callMeets_of_lt (hs : s.Numbered) (hc : c.object = some a)
    (h : s.table.counter.toNat < maxObjects) :
    createStep s c = some (s.store h a) ∧ s.CallMeets c := by
  have hcreate : create s.table c =
      some (true, some s.table.counter, (s.store h a).table) := by
    rw [create_eq, hc]
    simp only [commonHandleCreate, dif_pos h, handle_eq, Option.map_some]
    rfl
  have hstep : createStep s c = some (s.store h a) := by
    rw [createStep, hcreate, hc]
    rfl
  refine ⟨hstep, _, _, _, _, hcreate, hstep, (hs.store h a).retrieves, ?_, ?_⟩
  · intro _
    exact ⟨_, a, rfl, hc, rfl⟩
  · intro hfail
    cases hfail

theorem not_callMeets_of_le (hc : c.object = some a)
    (h : maxObjects ≤ s.table.counter.toNat) : ¬ s.CallMeets c := by
  rintro ⟨_, _, _, _, hcreate, -⟩
  rw [create_eq, hc] at hcreate
  simp [commonHandleCreate, Nat.not_lt.mpr h] at hcreate

/-- From any state on, the calls are as they should be exactly if the objects fit. -/
theorem along_callMeets_iff (hs : s.Numbered) (calls : List (Creation A)) :
    Along createStep CallMeets s calls ↔
      s.created.length + (calls.filterMap Creation.object).length ≤ maxObjects := by
  induction calls generalizing s with
  | nil => exact iff_of_true trivial hs.fits
  | cons c calls ih =>
    rw [Along]
    cases hc : c.object with
    | none =>
      obtain ⟨hstep, hmeets⟩ := callMeets_of_none hs hc
      rw [List.filterMap_cons_none hc, ← ih hs, hstep]
      simp [hmeets]
    | some a =>
      rw [List.filterMap_cons_some hc, List.length_cons]
      by_cases h : s.table.counter.toNat < maxObjects
      · obtain ⟨hstep, hmeets⟩ := callMeets_of_lt hs hc h
        have hrest := ih (hs.store h a)
        have hlength : (s.store h a).created.length = s.created.length + 1 :=
          List.length_append
        rw [hlength] at hrest
        rw [hstep, ← Nat.add_assoc, Nat.add_right_comm, ← hrest]
        simp [hmeets]
      · apply iff_of_false
        · intro halong
          exact not_callMeets_of_le hc (Nat.le_of_not_lt h) halong.1
        · rw [hs.counter] at h
          omega

end HandleState

/-- In every run of creations each object keeps a handle of its own exactly if there are no more
than `MAX_OBJECTS`. -/
theorem create_run_retrieves (calls : List (Creation A)) :
    Along createStep HandleState.CallMeets HandleState.init calls ↔
      (calls.filterMap Creation.object).length ≤ maxObjects := by
  rw [HandleState.along_callMeets_iff HandleState.numbered_init]
  exact iff_of_eq (congrArg (· ≤ maxObjects) (Nat.zero_add _))

/-- The object after the last one that fits is stored behind the table. -/
theorem create_run_not_retrieves :
    ¬ Along createStep HandleState.CallMeets HandleState.init
      ((List.range 129).map fun a => Creation.bstree (some a)) := by
  intro halong
  have hle := (HandleState.along_callMeets_iff HandleState.numbered_init _).mp halong
  have hlength : (((List.range 129).map fun a => Creation.bstree (some a)).filterMap
      Creation.object).length = 129 := by
    rw [List.filterMap_map]
    simp [Function.comp_def, Creation.object]
  rw [hlength] at hle
  exact absurd hle (by decide)

end MorningProjects.Common
