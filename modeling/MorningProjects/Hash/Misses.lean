import MorningProjects.Hash.Counting

/-!
# Keys that are not in the table

A search for an absent key ends at the first bucket on its path that was never
used, within the first `100*NUM_BUCKETS` steps. Without such a bucket `ht_lookup`
gives up and returns NULL, even if it has met a vacated bucket: lookup and
removal dereference the NULL, and an insertion is refused.
-/
namespace MorningProjects.Hash
open Library

variable {K D : Type*} {compare : K → K → ℤ} {rand : ℕ → UInt32} {hash : K → Fin numBuckets}

def HtBucket.NeverUsed (b : HtBucket K D) : Prop := b.data = none ∧ b.vacated = false

instance (b : HtBucket K D) : Decidable b.NeverUsed :=
  inferInstanceAs (Decidable (b.data = none ∧ b.vacated = false))

variable (compare rand hash) in
/-- Looking up and removing a key report that it is not found, at location -1, and leave the
table as it is. -/
def Hashtable.Misses (t : Hashtable K D) (key : K) (out : ProbeOut) : Prop :=
  (∃ out', htLookupData compare rand hash t key out = some (.databaseNotFound, none, out') ∧
    out'.location = -1) ∧
  ∃ out', htRemove compare rand hash t key out = some (.databaseNotFound, t, none, out') ∧
    out'.location = -1

variable (compare rand hash) in
/-- Inserting the key succeeds with `STATUS_OK` and stores the key with its data. -/
def Hashtable.Stores (t : Hashtable K D) (key : K) (d : D) (out : ProbeOut) : Prop :=
  ∃ t' out' i, htInsert compare rand hash t key (some d) out = some (.ok, t', out') ∧
    t'.ht i = ⟨some key, some d, false⟩

section Absent

variable {t : Hashtable K D} {key : K} {d : D} {out : ProbeOut}

theorem Hashtable.Keyed.neverUsed_iff (h : t.Keyed) {i : Fin numBuckets} :
    (t.ht i).NeverUsed ↔ t.cells i = .empty := by
  constructor
  · rintro ⟨hd, hv⟩
    exact cell_of_empty hv (by simp [hd])
  · intro hi
    refine ⟨by simpa using data_of_empty (h i) hi, ?_⟩
    by_contra hv
    rw [Hashtable.cells, cell_of_vacated (by simpa using hv)] at hi
    cases hi

/-- A search for an absent key ends at the first bucket on its path that was never used. -/
theorem Hashtable.Absent.search_cases (ht : t.Keyed) (h : t.Absent compare key)
    {r : Option (Fin numBuckets)} {n : ℕ}
    (hs : Search (probePath hash rand) (fun a b => compare a b = 0) maxProbes t.cells key r n) :
    ((∃ i, r = some i) ∧ n ≤ maxProbes ∧ (t.ht (probePath hash rand key n)).NeverUsed ∧
        ∀ m < n, ¬ (t.ht (probePath hash rand key m)).NeverUsed) ∨
      r = none ∧ ∀ m ≤ maxProbes, ¬ (t.ht (probePath hash rand key m)).NeverUsed := by
  cases hs with
  | duplicated hn hpass hfound hsame => exact absurd hsame (h.not_live hfound)
  | available hn hpass hend hcell =>
    refine .inl ⟨⟨_, rfl⟩, hn, ht.neverUsed_iff.mpr hend, fun m hm hused => ?_⟩
    exact (hpass m hm).1 (ht.neverUsed_iff.mp hused)
  | exhausted hpass =>
    exact .inr ⟨rfl, fun m hm hused => (hpass m hm).1 (ht.neverUsed_iff.mp hused)⟩

/-- Looking up and removing an absent key go well exactly if its path meets a bucket that
was never used. -/
theorem Hashtable.Tidy.misses_iff (ht : t.Tidy) (h : t.Absent compare key) (out : ProbeOut) :
    t.Misses compare rand hash key out ↔
      ∃ n ≤ maxProbes, (t.ht (probePath hash rand key n)).NeverUsed := by
  obtain ⟨r, out₁, hr, hs⟩ := htLookup_searched hash compare rand ht.keyed key out
  rcases h.search_cases ht.keyed hs.search with ⟨⟨i, rfl⟩, hn, hused, -⟩ | ⟨rfl, hnone⟩
  · have hdata := ht.data_of_search h hs.search
    constructor
    · intro _
      exact ⟨_, hn, hused⟩
    · intro _
      constructor
      · exact ⟨{ out₁ with location := -1 }, by simp [htLookupData, hr, hdata], rfl⟩
      · exact ⟨{ out₁ with location := -1 }, by simp [htRemove, hr, hdata], rfl⟩
  · constructor
    · rintro ⟨⟨out', hlookup, -⟩, -⟩
      rw [htLookupData, hr] at hlookup
      cases hlookup
    · rintro ⟨n, hn, hused⟩
      exact absurd hused (hnone n hn)

/-- Inserting an absent key goes well exactly if the counter has room and the path of the key
meets a bucket that was never used before the last step. -/
theorem Hashtable.Tidy.stores_iff (ht : t.Tidy) (h : t.Absent compare key) (d : D)
    (out : ProbeOut) :
    t.Stores compare rand hash key d out ↔ t.numData ≠ UInt32.ofNat numBuckets ∧
      ∃ n < maxProbes, (t.ht (probePath hash rand key n)).NeverUsed := by
  constructor
  · rintro ⟨t', out', i, hins, -⟩
    constructor
    · intro hfull
      rw [htInsert, if_pos hfull] at hins
      cases hins
    · rcases htInsert_cases ht.keyed hins with ⟨-, j, n, hn, hsearch, -⟩ | ⟨hok, -⟩
      · rcases h.search_cases ht.keyed hsearch with ⟨-, -, hused, -⟩ | ⟨hnone, -⟩
        · exact ⟨n, hn, hused⟩
        · cases hnone
      · exact absurd rfl hok
  · rintro ⟨hroom, n, hn, hused⟩
    obtain ⟨r, out₁, hr, hs⟩ := htLookup_searched hash compare rand ht.keyed key out
    rcases h.search_cases ht.keyed hs.search with ⟨⟨i, rfl⟩, -, -, hfirst⟩ | ⟨rfl, hnone⟩
    · have hcount : out₁.probeCount ≠ UInt32.ofNat maxProbes := by
        intro heq
        rw [heq, toNat_probes le_rfl] at hfirst
        exact hfirst n hn hused
      have hdata := ht.data_of_search h hs.search
      refine ⟨⟨t.numData + 1, Function.update t.ht i ⟨some key, some d, false⟩⟩, out₁, i, ?_,
        Function.update_self ..⟩
      rw [htInsert, if_neg hroom, hr]
      simp [hcount, hdata]
    · exact absurd hused (hnone n hn.le)

theorem Hashtable.Tidy.not_misses (ht : t.Tidy) (h : t.Absent compare key)
    (hused : ∀ i, ¬ (t.ht i).NeverUsed) (rand : ℕ → UInt32) (out : ProbeOut) :
    ¬ t.Misses compare rand hash key out := by
  rw [ht.misses_iff h]
  rintro ⟨n, -, hn⟩
  exact hused _ hn

theorem Hashtable.Tidy.not_stores (ht : t.Tidy) (h : t.Absent compare key)
    (hused : ∀ i, ¬ (t.ht i).NeverUsed) (rand : ℕ → UInt32) (d : D) (out : ProbeOut) :
    ¬ t.Stores compare rand hash key d out := by
  rw [ht.stores_iff h]
  rintro ⟨-, n, -, hn⟩
  exact hused _ hn

end Absent

/-- In every state a run reaches, looking up and removing an absent key report a miss exactly
if the first `100*NUM_BUCKETS` steps of its path meet a bucket that was never used. -/
theorem ht_run_misses_iff (numData : UInt32) (ops : List (HtOp K D)) {s : HtState K D}
    (hrun : runFrom (htStep compare rand hash) (.create numData) ops = some s) (key : K)
    (habsent : s.table.Absent compare key) (out : ProbeOut) :
    s.table.Misses compare rand hash key out ↔
      ∃ n ≤ maxProbes, (s.table.ht (probePath hash rand key n)).NeverUsed :=
  (HtState.tidy_run compare rand hash numData ops hrun).misses_iff habsent out

theorem ht_run_misses_iff_example :
    ∃ s, runFrom (htStep compareNat (fun _ => 1) hashNat) (.create 0) [.insert 3 7 ⟨0, 0⟩] =
        some s ∧ s.table.Misses compareNat (fun _ => 1) hashNat 23 ⟨0, 0⟩ := by
  refine ⟨_, rfl, (ht_run_misses_iff 0 [.insert 3 7 ⟨0, 0⟩] rfl 23 (absent_nat (by decide))
    ⟨0, 0⟩).mpr ?_⟩
  exact ⟨1, by decide, rfl, rfl⟩

def filling : List (HtOp ℕ ℕ) := (List.range numBuckets).map fun k => .insert k k ⟨0, 0⟩

/-- In a full table the search for an absent key gives up. -/
theorem ht_run_not_misses :
    ∃ s, runFrom (htStep compareNat (fun _ => 1) hashNat) (.create 0) filling = some s ∧
      s.table.Absent compareNat 20 ∧
      ¬ s.table.Misses compareNat (fun _ => 1) hashNat 20 ⟨0, 0⟩ := by
  have htidy := HtState.tidy_run compareNat (fun _ => 1) hashNat 0 filling rfl
  refine ⟨_, rfl, absent_nat (by decide), ?_⟩
  exact htidy.not_misses (absent_nat (by decide)) (by decide) _ _

/-- In every state a run reaches, inserting an absent key succeeds exactly if the counter has
room and its path meets a bucket that was never used in fewer than `100*NUM_BUCKETS` steps. -/
theorem ht_run_stores_iff (numData : UInt32) (ops : List (HtOp K D)) {s : HtState K D}
    (hrun : runFrom (htStep compare rand hash) (.create numData) ops = some s) (key : K)
    (habsent : s.table.Absent compare key) (d : D) (out : ProbeOut) :
    s.table.Stores compare rand hash key d out ↔ s.table.numData ≠ UInt32.ofNat numBuckets ∧
      ∃ n < maxProbes, (s.table.ht (probePath hash rand key n)).NeverUsed :=
  (HtState.tidy_run compare rand hash numData ops hrun).stores_iff habsent d out

theorem ht_run_stores_iff_example :
    ∃ s, runFrom (htStep compareNat (fun _ => 1) hashNat) (.create 0)
        [.insert 3 7 ⟨0, 0⟩, .remove 3 ⟨0, 0⟩] = some s ∧
      s.table.Stores compareNat (fun _ => 1) hashNat 23 8 ⟨0, 0⟩ := by
  refine ⟨_, rfl, (ht_run_stores_iff 0 [.insert 3 7 ⟨0, 0⟩, .remove 3 ⟨0, 0⟩] rfl 23
    (absent_nat (by decide)) 8 ⟨0, 0⟩).mpr ⟨by decide, ?_⟩⟩
  exact ⟨1, by decide, rfl, rfl⟩

def vacating : List (HtOp ℕ ℕ) :=
  (List.range numBuckets).flatMap fun k => [.insert k k ⟨0, 0⟩, .remove k ⟨0, 0⟩]

/-- Once every bucket is vacated, the empty table refuses every key, although the path of the
key visits every bucket in the first `NUM_BUCKETS` steps. -/
theorem ht_run_not_stores :
    ∃ s, runFrom (htStep compareNat (fun _ => 1) hashNat) (.create 0) vacating = some s ∧
      s.table.Absent compareNat 20 ∧ s.table.holding.card < numBuckets ∧
      (∀ i, ∃ n < numBuckets, probePath hashNat (fun _ => 1) 20 n = i) ∧
      ¬ s.table.Stores compareNat (fun _ => 1) hashNat 20 0 ⟨0, 0⟩ := by
  have htidy := HtState.tidy_run compareNat (fun _ => 1) hashNat 0 vacating rfl
  refine ⟨_, rfl, absent_nat (by decide), by decide, by decide, ?_⟩
  exact htidy.not_stores (absent_nat (by decide)) (by decide) _ _ _

end MorningProjects.Hash
