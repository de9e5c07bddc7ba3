import MorningProjects.Hash.Search
import MorningProjects.Library.Runs

/-!
# Runs on one hash table

An insertion stores in the bucket its search offers, and a removal vacates the
bucket of its key. Both keep every other key on its probe path, so a lookup
finds what the last successful operation on its key left.
-/
namespace MorningProjects.Hash
open Library

variable {K D : Type*}

inductive HtEvent (K D : Type*) where
  | inserted (key : K) (data : D)
  | removed (key : K)

def HtEvent.key : HtEvent K D → K
  | .inserted key _ => key
  | .removed key => key

/-- A table and its successful insertions and removals, the latest first. -/
structure HtState (K D : Type*) where
  table : Hashtable K D
  history : List (HtEvent K D)

/-- A call with the key, the data, and what the caller's output variables hold. -/
inductive HtOp (K D : Type*) where
  | insert (key : K) (data : D) (out : ProbeOut)
  | remove (key : K) (out : ProbeOut)
  | lookup (key : K) (out : ProbeOut)

def HtState.create (numData : UInt32) : HtState K D := ⟨htCreate numData, []⟩

section Step

variable (compare : K → K → ℤ) (rand : ℕ → UInt32) (hash : K → Fin numBuckets)

def htStep (s : HtState K D) : HtOp K D → Option (HtState K D)
  | .insert key data out =>
    (htInsert compare rand hash s.table key (some data) out).map fun (status, table, _) =>
      if status = .ok ∨ status = .databaseOverwriten then
        ⟨table, .inserted key data :: s.history⟩
      else ⟨table, s.history⟩
  | .remove key out =>
    (htRemove compare rand hash s.table key out).map fun (status, table, _, _) =>
      if status = .ok then ⟨table, .removed key :: s.history⟩ else ⟨table, s.history⟩
  | .lookup key out => (htLookupData compare rand hash s.table key out).map fun _ => s

def lastOperation (history : List (HtEvent K D)) (key : K) : Option (HtEvent K D) :=
  history.find? fun e => compare e.key key = 0

end Step

section Calls

variable {compare : K → K → ℤ} {rand : ℕ → UInt32} {hash : K → Fin numBuckets}
  {t t' : Hashtable K D} {key : K} {d : D} {out out' : ProbeOut} {status : SystemStatus}

/-- An insertion stores in the bucket its search offers, or changes nothing. -/
theorem htInsert_cases (ht : t.Keyed)
    (h : htInsert compare rand hash t key (some d) out = some (status, t', out')) :
    (status = .ok ∨ status = .databaseOverwriten) ∧
        (∃ i n, n < maxProbes ∧ Search (probePath hash rand) (fun a b => compare a b = 0)
          maxProbes t.cells key (some i) n ∧
          t' = ⟨t.numData + 1, Function.update t.ht i ⟨some key, some d, false⟩⟩) ∨
      status ≠ .ok ∧ status ≠ .databaseOverwriten ∧ t' = t := by
  rw [htInsert] at h
  split_ifs at h with hfull
  · cases h
    exact .inr ⟨by decide, by decide, rfl⟩
  · obtain ⟨r, out₁, hr, hs⟩ := htLookup_searched hash compare rand ht key out
    rw [hr] at h
    dsimp only [Option.bind_some] at h
    by_cases hmax : out₁.probeCount = UInt32.ofNat maxProbes
    · rw [if_pos hmax] at h
      cases h
      exact .inr ⟨by decide, by decide, rfl⟩
    · rw [if_neg hmax] at h
      obtain ⟨i, rfl, hi⟩ := Option.bind_eq_some_iff.mp h
      have hn : out₁.probeCount.toNat < maxProbes := by
        apply Nat.lt_of_le_of_ne hs.search.le
        intro heq
        exact hmax (by rw [← heq, UInt32.ofNat_toNat])
      have hstore : ∀ st, st = SystemStatus.ok ∨ st = .databaseOverwriten → some (st,
          (⟨t.numData + 1, Function.update t.ht i ⟨some key, some d, false⟩⟩ : Hashtable K D),
          out₁) = some (status, t', out') → (status = .ok ∨ status = .databaseOverwriten) ∧
        (∃ i n, n < maxProbes ∧ Search (probePath hash rand) (fun a b => compare a b = 0)
          maxProbes t.cells key (some i) n ∧
          t' = ⟨t.numData + 1, Function.update t.ht i ⟨some key, some d, false⟩⟩) := by
        rintro st hst ⟨⟩
        exact ⟨hst, i, _, hn, hs.search, rfl⟩
      split_ifs at hi with hd hv
      · exact .inl (hstore _ (.inl rfl) hi)
      · exact .inl (hstore _ (.inr rfl) hi)
      · obtain ⟨k, -, hk⟩ := Option.bind_eq_some_iff.mp hi
        split_ifs at hk
        · exact .inl (hstore _ (.inr rfl) hk)
        · cases hk
          exact .inr ⟨by decide, by decide, rfl⟩

theorem htRemove_cases (ht : t.Keyed) {disposed : Option D}
    (h : htRemove compare rand hash t key out = some (status, t', disposed, out')) :
    status = .ok ∧ (∃ i k v, t.cells i = .live k v ∧ compare k key = 0 ∧ disposed = some v ∧
        t' = ⟨t.numData - 1, Function.update t.ht i ⟨none, none, true⟩⟩) ∨
      status = .databaseNotFound ∧ t' = t := by
  obtain ⟨r, out₁, hr, hs⟩ := htLookup_searched hash compare rand ht key out
  rw [htRemove, hr] at h
  dsimp only [Option.bind_some] at h
  obtain ⟨i, rfl, hi⟩ := Option.map_eq_some_iff.mp h
  split_ifs at hi with hd
  · cases hi
    exact .inr ⟨rfl, rfl⟩
  · cases hi
    rcases hs.search.cell with ⟨k, v, hi, hk⟩ | hi | hi
    · exact .inl ⟨rfl, i, k, v, hi, hk, (live_of_cell hi).2.2, rfl⟩
    · exact (hd (.inl (data_of_empty (ht i) hi))).elim
    · exact (hd (.inr (vacated_of_cell hi))).elim

theorem htLookupData_live (hc : Callbacks hash compare) (ht : t.Keyed)
    (hreach : Reached (probePath hash rand) (fun a b => compare a b = 0) maxProbes t.cells)
    {i : Fin numBuckets} {k : K} (hi : t.cells i = .live k d) (hk : compare k key = 0)
    (out : ProbeOut) :
    ∃ out', htLookupData compare rand hash t key out = some (.ok, some d, out') ∧
      out'.location = i := by
  obtain ⟨r, out₁, hr, hs⟩ := htLookup_searched hash compare rand ht key out
  obtain ⟨rfl, -⟩ := hreach.search_live (hc.keyClasses rand) hi hk hs.search
  obtain ⟨hv, -, hd⟩ := live_of_cell hi
  refine ⟨out₁, ?_, hs.location i rfl⟩
  rw [htLookupData, hr]
  simp [hv, hd]

end Calls

section Run

variable {compare : K → K → ℤ} {rand : ℕ → UInt32} {hash : K → Fin numBuckets}

theorem lastOperation_cons (e : HtEvent K D) (history : List (HtEvent K D)) (key : K) :
    lastOperation compare (e :: history) key =
      if compare e.key key = 0 then some e else lastOperation compare history key := by
  rw [lastOperation, List.find?_cons]
  by_cases h : compare e.key key = 0
  · simp [h]
  · simp [h, lastOperation]

variable (compare rand hash) in
/-- The invariant: every live key is on its probe path, and every key inserted last
holds its data. -/
structure HtState.Sound (s : HtState K D) : Prop where
  keyed : s.table.Keyed
  reached : Reached (probePath hash rand) (fun a b => compare a b = 0) maxProbes s.table.cells
  last : ∀ key k d, lastOperation compare s.history key = some (.inserted k d) →
    Holds (fun a b => compare a b = 0) s.table.cells key d

theorem HtState.sound_create (numData : UInt32) :
    (HtState.create numData : HtState K D).Sound compare rand hash := by
  constructor
  · intro i _ hd
    cases hd
  · exact reached_empty
  · intro key k d h
    cases h

theorem HtState.Sound.insert (hc : Callbacks hash compare) {s s' : HtState K D}
    (h : s.Sound compare rand hash) {key : K} {d : D} {out : ProbeOut}
    (hs : htStep compare rand hash s (.insert key d out) = some s') :
    s'.Sound compare rand hash := by
  have hkeys := hc.keyClasses rand
  obtain ⟨⟨status, t, out'⟩, hins, rfl⟩ := Option.map_eq_some_iff.mp hs
  rcases htInsert_cases h.keyed hins with ⟨hok, i, n, hn, hsearch, rfl⟩ | ⟨hok, hover, rfl⟩
  · dsimp only
    rw [if_pos hok]
    constructor
    · exact h.keyed.update _ i fun _ _ => rfl
    · rw [cells_update]
      exact h.reached.store hkeys hsearch hn d
    · intro key' k v hlast
      rw [cells_update]
      rw [lastOperation_cons] at hlast
      split_ifs at hlast with heq
      · cases hlast
        exact holds_store (fun a b => compare a b = 0) i heq d
      · exact (h.last key' k v hlast).store hkeys heq hsearch d
  · dsimp only
    rw [if_neg (by simp [hok, hover])]
    exact h

theorem HtState.Sound.remove (hc : Callbacks hash compare) {s s' : HtState K D}
    (h : s.Sound compare rand hash) {key : K} {out : ProbeOut}
    (hs : htStep compare rand hash s (.remove key out) = some s') :
    s'.Sound compare rand hash := by
  have hkeys := hc.keyClasses rand
  obtain ⟨⟨status, t, disposed, out'⟩, hrem, rfl⟩ := Option.map_eq_some_iff.mp hs
  rcases htRemove_cases h.keyed hrem with ⟨rfl, i, k, v, hi, hk, -, rfl⟩ | ⟨rfl, rfl⟩
  · constructor
    · exact h.keyed.update _ i fun hv => by cases hv
    · change Reached _ _ _ (Hashtable.cells ⟨_, _⟩)
      rw [cells_update]
      exact h.reached.vacate i
    · intro key' k' d hlast
      change Holds _ (Hashtable.cells ⟨_, _⟩) key' d
      rw [cells_update]
      change lastOperation compare (.removed key :: s.history) key' = _ at hlast
      rw [lastOperation_cons] at hlast
      split_ifs at hlast with heq
      · cases hlast
      · exact (h.last key' k' d hlast).vacate hkeys heq hi hk
  · exact h

theorem HtState.Sound.step (hc : Callbacks hash compare) {s s' : HtState K D}
    (h : s.Sound compare rand hash) {op : HtOp K D}
    (hs : htStep compare rand hash s op = some s') : s'.Sound compare rand hash := by
  cases op with
  | insert key d out => exact h.insert hc hs
  | remove key out => exact h.remove hc hs
  | lookup key out =>
    obtain ⟨-, -, rfl⟩ := Option.map_eq_some_iff.mp hs
    exact h

theorem HtState.sound_run (hc : Callbacks hash compare) (numData : UInt32)
    {ops : List (HtOp K D)} {s : HtState K D}
    (hrun : runFrom (htStep compare rand hash) (.create numData) ops = some s) :
    s.Sound compare rand hash := by
  apply runFrom_invariant_of_step _ (HtState.sound_create numData) hrun
  intro s op s' hs hstep
  exact hs.step hc hstep

theorem HtState.Sound.unique {s : HtState K D} (h : s.Sound compare rand hash)
    {i j : Fin numBuckets} {k k' : K} (hi : (s.table.ht i).Live) (hj : (s.table.ht j).Live)
    (hk : (s.table.ht i).key = some k) (hk' : (s.table.ht j).key = some k')
    (heq : compare k k' = 0) : i = j := by
  obtain ⟨d, hd⟩ := Option.isSome_iff_exists.mp hi.1
  obtain ⟨d', hd'⟩ := Option.isSome_iff_exists.mp hj.1
  exact h.reached.unique (cell_of_live hi.2 hk hd) (cell_of_live hj.2 hk' hd') heq

theorem HtState.Sound.lookup (hc : Callbacks hash compare) {s : HtState K D}
    (h : s.Sound compare rand hash) {key k : K} {d : D} (out : ProbeOut)
    (hlast : lastOperation compare s.history key = some (.inserted k d)) :
    ∃ i k' out', s.table.ht i = ⟨some k', some d, false⟩ ∧ compare k' key = 0 ∧
      htLookupData compare rand hash s.table key out = some (.ok, some d, out') ∧
      out'.location = i := by
  obtain ⟨i, k', hi, hk'⟩ := h.last key k d hlast
  obtain ⟨out', hlookup, hloc⟩ := htLookupData_live hc h.keyed h.reached hi hk' out
  obtain ⟨hv, hkey, hd⟩ := live_of_cell hi
  exact ⟨i, k', out', by rw [← hkey, ← hd, ← hv], hk', hlookup, hloc⟩

/-- In every state a run reaches, live buckets hold pairwise different keys, and a key
whose last successful operation inserted it is looked up with its data and its bucket. -/
theorem ht_run_lookup (hc : Callbacks hash compare) (rand : ℕ → UInt32) (numData : UInt32)
    (ops : List (HtOp K D)) {s : HtState K D}
    (hrun : runFrom (htStep compare rand hash) (.create numData) ops = some s) :
    (∀ i j k k', (s.table.ht i).Live → (s.table.ht j).Live → (s.table.ht i).key = some k →
      (s.table.ht j).key = some k' → compare k k' = 0 → i = j) ∧
    ∀ key k d out, lastOperation compare s.history key = some (.inserted k d) →
      ∃ i k' out', s.table.ht i = ⟨some k', some d, false⟩ ∧ compare k' key = 0 ∧
        htLookupData compare rand hash s.table key out = some (.ok, some d, out') ∧
        out'.location = i := by
  have h := HtState.sound_run hc numData hrun
  constructor
  · intro i j k k' hi hj hk hk' heq
    exact h.unique hi hj hk hk' heq
  · intro key k d out hlast
    exact h.lookup hc out hlast

end Run

/-- Numbers as keys, hashed to their last digits. -/
def hashNat (n : ℕ) : Fin numBuckets := ⟨n % numBuckets, Nat.mod_lt _ (by decide)⟩

def compareNat (a b : ℕ) : ℤ := a - b

theorem callbacks_nat : Callbacks hashNat compareNat := by
  have heq : ∀ a b, compareNat a b = 0 → a = b := by
    intro a b h
    rw [compareNat] at h
    omega
  constructor
  · intro a
    simp [compareNat]
  · intro a b h
    rw [heq a b h]
    simp [compareNat]
  · intro a b c hab hbc
    rwa [heq a b hab]
  · intro a b h
    rw [heq a b h]

theorem ht_run_lookup_example :
    ∃ s, runFrom (htStep compareNat (fun _ => 1) hashNat) (.create 0)
        [.insert 3 7 ⟨0, 0⟩, .insert 23 8 ⟨0, 0⟩, .remove 3 ⟨0, 0⟩] = some s ∧
      ∃ i k' out', s.table.ht i = ⟨some k', some 8, false⟩ ∧ compareNat k' 23 = 0 ∧
        htLookupData compareNat (fun _ => 1) hashNat s.table 23 ⟨0, 0⟩ =
          some (.ok, some 8, out') ∧ out'.location = i := by
  refine ⟨_, rfl, ?_⟩
  exact (ht_run_lookup callbacks_nat (fun _ => 1) 0
    [.insert 3 7 ⟨0, 0⟩, .insert 23 8 ⟨0, 0⟩, .remove 3 ⟨0, 0⟩] rfl).2 23 23 8 ⟨0, 0⟩ rfl

end MorningProjects.Hash
