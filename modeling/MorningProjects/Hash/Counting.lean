import MorningProjects.Hash.Run
import MorningProjects.Library.Counter
import Mathlib.Data.Fintype.Card

/-!
# The counter of the hash table

`HT_create` does not set `num_data`, and `HT_insert` counts overwriting like
inserting. From a zero counter, and without overwriting, the counter is the
number of buckets that hold data, and the table is full exactly when all do.
-/
namespace MorningProjects.Hash
open Library

variable {K D : Type*} {compare : K → K → ℤ} {rand : ℕ → UInt32} {hash : K → Fin numBuckets}

def Hashtable.holding (t : Hashtable K D) : Finset (Fin numBuckets) :=
  Finset.univ.filter fun i => (t.ht i).data.isSome

def Hashtable.Absent (compare : K → K → ℤ) (t : Hashtable K D) (key : K) : Prop :=
  ∀ i k, (t.ht i).Live → (t.ht i).key = some k → compare k key ≠ 0

structure Hashtable.Tidy (t : Hashtable K D) : Prop where
  keyed : t.Keyed
  cleared : ∀ i, (t.ht i).vacated = true → (t.ht i).data = none

theorem Hashtable.tidy_create (numData : UInt32) : (htCreate numData : Hashtable K D).Tidy := by
  constructor
  · intro i _ hd
    cases hd
  · intro i hv
    cases hv

theorem Hashtable.Tidy.update {t : Hashtable K D} (h : t.Tidy) (n : UInt32) (i : Fin numBuckets)
    {b : HtBucket K D} (hb : b.Keyed) (hclear : b.vacated = true → b.data = none) :
    (⟨n, Function.update t.ht i b⟩ : Hashtable K D).Tidy := by
  constructor
  · exact h.keyed.update n i hb
  · intro j hv
    change (Function.update t.ht i b j).data = none
    change (Function.update t.ht i b j).vacated = true at hv
    by_cases hji : j = i
    · rw [hji, Function.update_self] at hv ⊢
      exact hclear hv
    · rw [Function.update_of_ne hji] at hv ⊢
      exact h.cleared j hv

theorem HtState.tidy_step {s s' : HtState K D} (h : s.table.Tidy) {op : HtOp K D}
    (hs : htStep compare rand hash s op = some s') : s'.table.Tidy := by
  cases op with
  | insert key d out =>
    obtain ⟨⟨status, t, out'⟩, hins, rfl⟩ := Option.map_eq_some_iff.mp hs
    rcases htInsert_cases h.keyed hins with ⟨hok, i, n, -, -, rfl⟩ | ⟨hok, hover, rfl⟩
    · dsimp only
      rw [if_pos hok]
      exact h.update _ i (fun _ _ => rfl) fun hv => by cases hv
    · dsimp only
      rw [if_neg (by simp [hok, hover])]
      exact h
  | remove key out =>
    obtain ⟨⟨status, t, disposed, out'⟩, hrem, rfl⟩ := Option.map_eq_some_iff.mp hs
    rcases htRemove_cases h.keyed hrem with ⟨rfl, i, k, v, -, -, -, rfl⟩ | ⟨rfl, rfl⟩
    · exact h.update _ i (fun hv => by cases hv) fun _ => rfl
    · exact h
  | lookup key out =>
    obtain ⟨-, -, rfl⟩ := Option.map_eq_some_iff.mp hs
    exact h

variable (compare rand hash) in
theorem HtState.tidy_run (numData : UInt32) (ops : List (HtOp K D)) {s : HtState K D}
    (hrun : runFrom (htStep compare rand hash) (.create numData) ops = some s) :
    s.table.Tidy := by
  have hcreate : (HtState.create numData : HtState K D).table.Tidy :=
    Hashtable.tidy_create numData
  have hstep : ∀ (s : HtState K D) op s', s.table.Tidy →
      htStep compare rand hash s op = some s' → s'.table.Tidy :=
    fun s op s' h hs => HtState.tidy_step h hs
  exact runFrom_invariant_of_step hstep hcreate hrun

section Table

variable {t : Hashtable K D} {key : K} {d : D} {out : ProbeOut}

theorem Hashtable.Absent.not_live (h : t.Absent compare key) {i : Fin numBuckets} {k : K} {v : D}
    (hi : t.cells i = .live k v) : compare k key ≠ 0 := by
  obtain ⟨hv, hk, hd⟩ := live_of_cell hi
  exact h i k ⟨by simp [hd], hv⟩ hk

theorem Hashtable.Tidy.data_of_search (h : t.Tidy) (habsent : t.Absent compare key)
    {i : Fin numBuckets} {n : ℕ}
    (hs : Search (probePath hash rand) (fun a b => compare a b = 0) maxProbes t.cells key
      (some i) n) : (t.ht i).data = none := by
  rcases hs.cell with ⟨k, v, hi, hk⟩ | hi | hi
  · exact absurd hk (habsent.not_live hi)
  · simpa using data_of_empty (h.keyed i) hi
  · exact h.cleared i (vacated_of_cell hi)

theorem mem_holding {i : Fin numBuckets} : i ∈ t.holding ↔ (t.ht i).data.isSome := by
  simp [Hashtable.holding]

theorem holding_store (n : UInt32) (i : Fin numBuckets) (key : K) (d : D) :
    (⟨n, Function.update t.ht i ⟨some key, some d, false⟩⟩ : Hashtable K D).holding =
      insert i t.holding := by
  ext j
  rw [mem_holding, Finset.mem_insert, mem_holding]
  by_cases hji : j = i
  · simp [hji]
  · simp [hji]

theorem holding_vacate (n : UInt32) (i : Fin numBuckets) :
    (⟨n, Function.update t.ht i ⟨none, none, true⟩⟩ : Hashtable K D).holding =
      t.holding.erase i := by
  ext j
  rw [mem_holding, Finset.mem_erase, mem_holding]
  by_cases hji : j = i
  · simp [hji]
  · simp [hji]

theorem card_holding_le (t : Hashtable K D) : t.holding.card ≤ numBuckets :=
  (Finset.card_le_univ t.holding).trans_eq (Fintype.card_fin numBuckets)

/-- While the counter has room, an insertion of a live key overwrites its data. -/
theorem htInsert_live (hc : Callbacks hash compare) (ht : t.Keyed)
    (hreach : Reached (probePath hash rand) (fun a b => compare a b = 0) maxProbes t.cells)
    {i : Fin numBuckets} {k : K} {v : D} (hi : t.cells i = .live k v) (hk : compare k key = 0)
    (hroom : t.numData ≠ UInt32.ofNat numBuckets) :
    ∃ t' out', htInsert compare rand hash t key (some d) out =
      some (.databaseOverwriten, t', out') := by
  obtain ⟨r, out₁, hr, hs⟩ := htLookup_searched hash compare rand ht key out
  obtain ⟨rfl, hn⟩ := hreach.search_live (hc.keyClasses rand) hi hk hs.search
  have hmax : out₁.probeCount ≠ UInt32.ofNat maxProbes := by
    intro heq
    rw [heq, toNat_probes le_rfl] at hn
    exact lt_irrefl _ hn
  obtain ⟨hv, hkey, hd⟩ := live_of_cell hi
  refine ⟨⟨t.numData + 1, Function.update t.ht i ⟨some key, some d, false⟩⟩, out₁, ?_⟩
  rw [htInsert, if_neg hroom, hr]
  simp [hmax, hv, hkey, hd, hk]

end Table

/-! ### Runs -/

/-- A call keeps the counter if it does not overwrite: an inserted key is absent. -/
def HtState.Meets (compare : K → K → ℤ) (s : HtState K D) : HtOp K D → Prop
  | .insert key _ _ => s.table.Absent compare key
  | .remove _ _ | .lookup _ _ => True

/-- The invariant: a tidy table whose counter is the number of buckets that hold data. -/
structure HtState.Counted (s : HtState K D) : Prop where
  tidy : s.table.Tidy
  count : s.table.numData.toNat = s.table.holding.card

theorem HtState.counted_create : (HtState.create 0 : HtState K D).Counted := by
  refine ⟨Hashtable.tidy_create 0, ?_⟩
  have hempty : (HtState.create 0 : HtState K D).table.holding = ∅ := by
    ext i
    rw [mem_holding]
    simp [HtState.create, htCreate]
  rw [hempty]
  rfl

theorem HtState.Counted.step {s s' : HtState K D} (h : s.Counted) {op : HtOp K D}
    (hmeet : s.Meets compare op) (hs : htStep compare rand hash s op = some s') :
    s'.Counted := by
  refine ⟨HtState.tidy_step h.tidy hs, ?_⟩
  have hcard := card_holding_le s.table
  have hcount := h.count
  have hbuckets : numBuckets = 20 := rfl
  cases op with
  | insert key d out =>
    obtain ⟨⟨status, t, out'⟩, hins, rfl⟩ := Option.map_eq_some_iff.mp hs
    rcases htInsert_cases h.tidy.keyed hins with ⟨hok, i, n, -, hsearch, rfl⟩ | ⟨hok, hover, rfl⟩
    · have hnew : i ∉ s.table.holding := by
        rw [mem_holding, h.tidy.data_of_search hmeet hsearch]
        simp
      dsimp only
      rw [if_pos hok, holding_store, Finset.card_insert_of_notMem hnew]
      rw [toNat_succ (by omega), hcount]
    · dsimp only
      rw [if_neg (by simp [hok, hover])]
      exact hcount
  | remove key out =>
    obtain ⟨⟨status, t, disposed, out'⟩, hrem, rfl⟩ := Option.map_eq_some_iff.mp hs
    rcases htRemove_cases h.tidy.keyed hrem with ⟨rfl, i, k, v, hi, -, -, rfl⟩ | ⟨rfl, rfl⟩
    · have hold : i ∈ s.table.holding := by
        rw [mem_holding, (live_of_cell hi).2.2]
        rfl
      have hpos : 0 < s.table.holding.card := Finset.card_pos.mpr ⟨i, hold⟩
      change (s.table.numData - 1).toNat = Finset.card (Hashtable.holding ⟨_, _⟩)
      have hpred := toNat_pred (n := s.table.numData) (by omega)
      rw [holding_vacate, Finset.card_erase_of_mem hold]
      omega
    · exact hcount
  | lookup key out =>
    obtain ⟨-, -, rfl⟩ := Option.map_eq_some_iff.mp hs
    exact hcount

theorem absent_nat {t : Hashtable ℕ ℕ} {key : ℕ} (h : ∀ i, (t.ht i).key ≠ some key) :
    t.Absent compareNat key := by
  intro i k _ hk h0
  obtain rfl : k = key := by
    rw [compareNat] at h0
    omega
  exact h i hk

end MorningProjects.Hash
