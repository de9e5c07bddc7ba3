import MorningProjects.Hash.Misses
import MorningProjects.Library.Dictionary
import MorningProjects.Library.Simulation
import MorningProjects.Library.Slots

/-!
# What the hash table holds

`HT_traverse` displays the buckets one by one, and `HT_destroy` passes their data to the callback.
A table whose calls are neither refused nor give up is a dictionary: it has its entries, whatever
buckets they are in, and answers as the dictionary does. `HT_destroy` clears no bucket.
-/
namespace MorningProjects.Hash
open Library

variable {K D : Type*}

/-! ### Traversing and destroying -/

inductive BucketLine (K D : Type*) where
  | entry (key : Option K) (data : D)
  | deleted
  | null
  deriving DecidableEq, Repr

def HtBucket.line (b : HtBucket K D) : BucketLine K D :=
  match b.data with
  | some d => .entry b.key d
  | none => if b.vacated then .deleted else .null

/-- `HT_traverse`: the number of data and the lines. -/
def htTraverse (t : Hashtable K D) : SystemStatus × UInt32 × List (BucketLine K D) :=
  (.ok, t.numData, (List.finRange numBuckets).map fun i => (t.ht i).line)

/-- `HT_destroy`: the data passed to the callback, and the table, which is left as it was. -/
def htDestroy (t : Hashtable K D) : SystemStatus × Hashtable K D × List D :=
  (.ok, t, (List.finRange numBuckets).filterMap fun i => (t.ht i).data)

/-! ### Entries -/

def entryOf : Cell K D → Option (K × D)
  | .live k d => some (k, d)
  | _ => none

def Hashtable.entries (t : Hashtable K D) : List (K × D) :=
  (List.finRange numBuckets).filterMap fun i => entryOf (t.cells i)

def BucketLine.entry? : BucketLine K D → Option (K × D)
  | .entry (some k) d => some (k, d)
  | _ => none

section Entries

variable {t : Hashtable K D} {i : Fin numBuckets} {k : K} {d : D}

theorem entryOf_eq_some {c : Cell K D} : entryOf c = some (k, d) ↔ c = .live k d := by
  cases c with
  | live k' d' => simp [entryOf]
  | _ => simp [entryOf]

theorem mem_entries : (k, d) ∈ t.entries ↔ ∃ i, t.cells i = .live k d := by
  simp [Hashtable.entries, entryOf_eq_some]

theorem Hashtable.Tidy.entryOf_data (h : t.Tidy) (i : Fin numBuckets) :
    (entryOf (t.cells i)).map Prod.snd = (t.ht i).data ∧
      (t.ht i).line.entry? = entryOf (t.cells i) := by
  rw [HtBucket.line]
  rcases h.keyed.bucket_cases i with ⟨hv, hd⟩ | hv | ⟨k, d, hv, hk, hd⟩
  · have hcell : t.cells i = .empty := cell_of_empty hv hd
    rw [Option.isNone_iff_eq_none] at hd
    rw [hcell, hd, hv]
    exact ⟨rfl, rfl⟩
  · have hcell : t.cells i = .vacated := cell_of_vacated hv
    rw [hcell, h.cleared i hv, hv]
    exact ⟨rfl, rfl⟩
  · have hcell : t.cells i = .live k d := cell_of_live hv hk hd
    rw [hcell, hd, hk]
    exact ⟨rfl, rfl⟩

theorem Hashtable.Tidy.filterMap_lines (h : t.Tidy) :
    (htTraverse t).2.2.filterMap BucketLine.entry? = t.entries := by
  rw [htTraverse, Hashtable.entries, List.filterMap_map]
  apply List.filterMap_congr
  intro i _
  exact (h.entryOf_data i).2

theorem Hashtable.Tidy.destroyed (h : t.Tidy) : (htDestroy t).2.2 = t.entries.map Prod.snd := by
  rw [htDestroy, Hashtable.entries, List.map_filterMap]
  apply List.filterMap_congr
  intro i _
  exact (h.entryOf_data i).1.symm

end Entries

/-! ### The dictionary -/

section Dictionary

variable (compare : K → K → ℤ)

/-- What a call does to the dictionary, and the status and the data it answers with. -/
def dictionary (l : List (K × D)) : HtOp K D → List (K × D) × SystemStatus × Option D
  | .insert key data _ =>
    let status := if findEntry (fun a b => compare a b = 0) key l = none then SystemStatus.ok
      else .databaseOverwriten
    ((key, data) :: eraseEntry (fun a b => compare a b = 0) key l, status, none)
  | .remove key _ =>
    match findEntry (fun a b => compare a b = 0) key l with
    | some d => (eraseEntry (fun a b => compare a b = 0) key l, .ok, some d)
    | none => (l, .databaseNotFound, none)
  | .lookup key _ =>
    match findEntry (fun a b => compare a b = 0) key l with
    | some d => (l, .ok, some d)
    | none => (l, .databaseNotFound, none)

variable (rand : ℕ → UInt32) (hash : K → Fin numBuckets)

def htCall (t : Hashtable K D) : HtOp K D → Option (Hashtable K D × SystemStatus × Option D)
  | .insert key data out =>
    (htInsert compare rand hash t key (some data) out).map fun (status, t, _) =>
      (t, status, none)
  | .remove key out =>
    (htRemove compare rand hash t key out).map fun (status, t, disposed, _) =>
      (t, status, disposed)
  | .lookup key out =>
    (htLookupData compare rand hash t key out).map fun (status, data, _) => (t, status, data)

/-- The path of a key meets, within `limit` steps, a bucket that was never used. -/
def Hashtable.Room (t : Hashtable K D) (key : K) (limit : ℕ) : Prop :=
  ∃ n < limit, (t.ht (probePath hash rand key n)).NeverUsed

/-- No insertion finds the counter full, and the search for an absent key comes to an end. -/
def HtPermits (t : Hashtable K D) : HtOp K D → Prop
  | .insert key _ _ => t.numData ≠ UInt32.ofNat numBuckets ∧
      (t.Absent compare key → t.Room rand hash key maxProbes)
  | .remove key _ | .lookup key _ => t.Absent compare key → t.Room rand hash key (maxProbes + 1)

/-- The table holds the entries of the dictionary. -/
structure DictHolds (t : Hashtable K D) (l : List (K × D)) : Prop where
  tidy : t.Tidy
  reached : Reached (probePath hash rand) (fun a b => compare a b = 0) maxProbes t.cells
  perm : t.entries.Perm l

end Dictionary

section Calls

variable {compare : K → K → ℤ} {rand : ℕ → UInt32} {hash : K → Fin numBuckets}
  {t : Hashtable K D} {l : List (K × D)} {key k : K} {d v : D} {i : Fin numBuckets}

variable (compare) in
theorem Hashtable.absent_or_live (t : Hashtable K D) (key : K) : t.Absent compare key ∨
    ∃ i k v, t.cells i = .live k v ∧ compare k key = 0 := by
  by_cases habsent : t.Absent compare key
  · exact .inl habsent
  · simp only [Hashtable.Absent, not_forall, not_not] at habsent
    obtain ⟨i, k, hlive, hk, h0⟩ := habsent
    obtain ⟨v, hv⟩ := Option.isSome_iff_exists.mp hlive.1
    exact .inr ⟨i, k, v, cell_of_live hlive.2 hk hv, h0⟩

theorem htRemove_live (hc : Callbacks hash compare) (ht : t.Keyed)
    (hreach : Reached (probePath hash rand) (fun a b => compare a b = 0) maxProbes t.cells)
    (hi : t.cells i = .live k v) (hk : compare k key = 0) (out : ProbeOut) :
    ∃ out', htRemove compare rand hash t key out =
      some (.ok, ⟨t.numData - 1, Function.update t.ht i ⟨none, none, true⟩⟩, some v, out') := by
  obtain ⟨r, out₁, hr, hs⟩ := htLookup_searched hash compare rand ht key out
  obtain ⟨rfl, -⟩ := hreach.search_live (hc.keyClasses rand) hi hk hs.search
  obtain ⟨hv, -, hd⟩ := live_of_cell hi
  refine ⟨out₁, ?_⟩
  rw [htRemove, hr]
  simp [hv, hd]

/-- The bucket is written that has the entry of the key, if there is one. -/
theorem entries_update (n : UInt32) (b : HtBucket K D)
    (hself : ∀ k v, t.cells i = .live k v → compare k key = 0)
    (hothers : ∀ j ≠ i, ∀ k v, t.cells j = .live k v → compare k key ≠ 0) :
    (⟨n, Function.update t.ht i b⟩ : Hashtable K D).entries.Perm
      ((entryOf b.cell).toList ++ eraseEntry (fun a b => compare a b = 0) key t.entries) := by
  have hcells : (fun j => entryOf ((⟨n, Function.update t.ht i b⟩ : Hashtable K D).cells j)) =
      Function.update (fun j => entryOf (t.cells j)) i (entryOf b.cell) := by
    rw [cells_update]
    exact Function.comp_update entryOf t.cells i b.cell
  rw [Hashtable.entries, hcells]
  apply filterMap_update_perm (List.nodup_finRange numBuckets) (List.mem_finRange i)
  · rintro ⟨k, v⟩ he
    simpa using hself k v (entryOf_eq_some.mp he)
  · rintro j hj ⟨k, v⟩ he
    simpa using hothers j hj k v (entryOf_eq_some.mp he)

section Holds

variable (h : DictHolds compare rand hash t l)
include h

theorem DictHolds.mem_iff : (k, v) ∈ l ↔ ∃ i, t.cells i = .live k v :=
  h.perm.mem_iff.symm.trans mem_entries

theorem DictHolds.find_absent (habsent : t.Absent compare key) :
    findEntry (fun a b => compare a b = 0) key l = none := by
  apply findEntry_eq_none
  rintro ⟨k, v⟩ he
  obtain ⟨i, hi⟩ := h.mem_iff.mp he
  exact habsent.not_live hi

theorem DictHolds.find_live (hc : Callbacks hash compare) (hi : t.cells i = .live k v)
    (hk : compare k key = 0) :
    findEntry (fun a b => compare a b = 0) key l = some v := by
  apply findEntry_eq_some (h.mem_iff.mpr ⟨i, hi⟩) hk
  rintro ⟨k', v'⟩ he h0
  obtain ⟨j, hj⟩ := h.mem_iff.mp he
  obtain rfl := h.reached.unique hj hi (hc.trans _ _ _ h0 (hc.symm _ _ hk))
  rw [hi] at hj
  cases hj
  rfl

theorem DictHolds.erase_perm (key : K) :
    (eraseEntry (fun a b => compare a b = 0) key t.entries).Perm
      (eraseEntry (fun a b => compare a b = 0) key l) := h.perm.filter _

/-- A key that is there has the only live bucket of its class. -/
theorem DictHolds.live_only (hc : Callbacks hash compare) (hi : t.cells i = .live k v)
    (hk : compare k key = 0) :
    (∀ k v, t.cells i = .live k v → compare k key = 0) ∧
      ∀ j ≠ i, ∀ k v, t.cells j = .live k v → compare k key ≠ 0 := by
  constructor
  · intro k' v' hi'
    rw [hi] at hi'
    cases hi'
    exact hk
  · intro j hj k' v' hj' h0
    exact hj (h.reached.unique hj' hi (hc.trans _ _ _ h0 (hc.symm _ _ hk)))

theorem DictHolds.insert (hc : Callbacks hash compare) {out : ProbeOut}
    (hpermit : HtPermits compare rand hash t (.insert key d out)) :
    ∃ t', htCall compare rand hash t (.insert key d out) =
        some (t', (dictionary compare l (.insert key d out)).2) ∧
      DictHolds compare rand hash t' (dictionary compare l (.insert key d out)).1 := by
  obtain ⟨hroom, hpath⟩ := hpermit
  have hanswer : ∃ t' out', htInsert compare rand hash t key (some d) out =
      some ((dictionary compare l (.insert key d out)).2.1, t', out') := by
    rcases t.absent_or_live compare key with habsent | ⟨i, k, v, hi, hk⟩
    · obtain ⟨t', out', -, hins, -⟩ :=
        (h.tidy.stores_iff habsent d out).mpr ⟨hroom, hpath habsent⟩
      refine ⟨t', out', ?_⟩
      rw [hins, dictionary, h.find_absent habsent, if_pos rfl]
    · obtain ⟨t', out', hins⟩ : ∃ t' out', htInsert compare rand hash t key (some d) out =
          some (.databaseOverwriten, t', out') :=
        htInsert_live hc h.tidy.keyed h.reached hi hk hroom
      refine ⟨t', out', ?_⟩
      rw [hins, dictionary, h.find_live hc hi hk, if_neg (Option.some_ne_none v)]
  obtain ⟨t', out', hins⟩ := hanswer
  refine ⟨t', by rw [htCall, hins]; rfl, ?_⟩
  rcases htInsert_cases h.tidy.keyed hins with ⟨-, i, n, hn, hsearch, rfl⟩ | ⟨hok, hover, -⟩
  · have hself : ∀ k v, t.cells i = .live k v → compare k key = 0 := by
      intro k v hi
      rcases hsearch.cell with ⟨k', v', hi', hk'⟩ | hi' | hi'
      all_goals
        rw [hi] at hi'
        cases hi'
      exact hk'
    have hothers : ∀ j ≠ i, ∀ k v, t.cells j = .live k v → compare k key ≠ 0 := by
      intro j hj k v hlive h0
      obtain ⟨heq, -⟩ := h.reached.search_live (hc.keyClasses rand) hlive h0 hsearch
      exact hj (Option.some.inj heq).symm
    constructor
    · exact h.tidy.update _ i (fun _ _ => rfl) fun hv => by cases hv
    · rw [cells_update]
      exact h.reached.store (hc.keyClasses rand) hsearch hn d
    · exact (entries_update _ _ hself hothers).trans ((h.erase_perm key).cons _)
  · rw [dictionary] at hok hover
    dsimp only at hok hover
    split_ifs at hok hover
    · exact absurd rfl hok
    · exact absurd rfl hover

theorem DictHolds.remove (hc : Callbacks hash compare) {out : ProbeOut}
    (hpermit : HtPermits compare rand hash t (.remove key out)) :
    ∃ t', htCall compare rand hash t (.remove key out) =
        some (t', (dictionary compare l (.remove key out)).2) ∧
      DictHolds compare rand hash t' (dictionary compare l (.remove key out)).1 := by
  rcases t.absent_or_live compare key with habsent | ⟨i, k, v, hi, hk⟩
  · obtain ⟨n, hn, hused⟩ := hpermit habsent
    obtain ⟨-, out', hremove, -⟩ :=
      (h.tidy.misses_iff habsent out).mpr ⟨n, Nat.le_of_lt_succ hn, hused⟩
    rw [dictionary, h.find_absent habsent]
    exact ⟨t, by rw [htCall, hremove]; rfl, h⟩
  · obtain ⟨out', hremove⟩ := htRemove_live hc h.tidy.keyed h.reached hi hk out
    obtain ⟨hself, hothers⟩ := h.live_only hc hi hk
    rw [dictionary, h.find_live hc hi hk]
    refine ⟨_, by rw [htCall, hremove]; rfl, ?_, ?_, ?_⟩
    · exact h.tidy.update _ i (fun hv => by cases hv) fun _ => rfl
    · rw [cells_update]
      exact h.reached.vacate i
    · exact (entries_update _ _ hself hothers).trans (h.erase_perm key)

theorem DictHolds.lookup (hc : Callbacks hash compare) {out : ProbeOut}
    (hpermit : HtPermits compare rand hash t (.lookup key out)) :
    ∃ t', htCall compare rand hash t (.lookup key out) =
        some (t', (dictionary compare l (.lookup key out)).2) ∧
      DictHolds compare rand hash t' (dictionary compare l (.lookup key out)).1 := by
  rcases t.absent_or_live compare key with habsent | ⟨i, k, v, hi, hk⟩
  · obtain ⟨n, hn, hused⟩ := hpermit habsent
    obtain ⟨⟨out', hlookup, -⟩, -⟩ :=
      (h.tidy.misses_iff habsent out).mpr ⟨n, Nat.le_of_lt_succ hn, hused⟩
    rw [dictionary, h.find_absent habsent]
    exact ⟨t, by rw [htCall, hlookup]; rfl, h⟩
  · obtain ⟨out', hlookup, -⟩ := htLookupData_live hc h.tidy.keyed h.reached hi hk out
    rw [dictionary, h.find_live hc hi hk]
    exact ⟨t, by rw [htCall, hlookup]; rfl, h⟩

end Holds

end Calls

/-! ### Runs -/

/-- In every run whose insertions find room and whose searches come to an end, the table answers
each call as the dictionary does, with the same status and data. Then `HT_traverse` displays the
entries of the dictionary, and `HT_destroy` passes exactly their data to the callback. -/
theorem ht_run_dictionary {compare : K → K → ℤ} {hash : K → Fin numBuckets}
    (hc : Callbacks hash compare) (rand : ℕ → UInt32) (numData : UInt32) (ops : List (HtOp K D))
    (hops : Along (changes (htCall compare rand hash)) (HtPermits compare rand hash)
      (htCreate numData) ops) :
    ∃ t, answersFrom (htCall compare rand hash) (htCreate numData) ops =
        some (t, (specified (dictionary compare) [] ops).2) ∧
      ((htTraverse t).2.2.filterMap BucketLine.entry?).Perm
        (specified (dictionary compare) [] ops).1 ∧
      (htDestroy t).2.2.Perm ((specified (dictionary compare) [] ops).1.map Prod.snd) := by
  have hcreate : DictHolds compare rand hash (htCreate numData : Hashtable K D) [] :=
    ⟨Hashtable.tidy_create numData, reached_empty, List.Perm.refl _⟩
  have hstep : ∀ n (t : Hashtable K D) l op, n < ops.length → DictHolds compare rand hash t l →
      HtPermits compare rand hash t op →
        ∃ t', htCall compare rand hash t op = some (t', (dictionary compare l op).2) ∧
          DictHolds compare rand hash t' (dictionary compare l op).1 := by
    intro n t l op _ h hop
    cases op with
    | insert key d out => exact h.insert hc hop
    | remove key out => exact h.remove hc hop
    | lookup key out => exact h.lookup hc hop
  obtain ⟨t, hrun, h⟩ := answersFrom_specified (R := fun _ => DictHolds compare rand hash) hstep
    (Nat.zero_add _).le hcreate hops
  refine ⟨t, hrun, ?_, ?_⟩
  · rw [h.tidy.filterMap_lines]
    exact h.perm
  · rw [h.tidy.destroyed]
    exact h.perm.map Prod.snd

def storingTwice : List (HtOp ℕ ℕ) :=
  [.insert 3 7 ⟨0, 0⟩, .insert 23 6 ⟨0, 0⟩, .insert 3 8 ⟨0, 0⟩, .remove 23 ⟨0, 0⟩,
    .lookup 23 ⟨0, 0⟩]

theorem ht_run_dictionary_example :
    ∃ t, answersFrom (htCall compareNat (fun _ => 1) hashNat) (htCreate 0) storingTwice =
        some (t, [(.ok, none), (.ok, none), (.databaseOverwriten, none), (.ok, some 6),
          (.databaseNotFound, none)]) ∧
      (htDestroy t).2.2 = [8] := by
  have hops : Along (changes (htCall compareNat (fun _ => 1) hashNat))
      (HtPermits compareNat (fun _ => 1) hashNat) (htCreate 0) storingTwice := by
    refine ⟨⟨by decide, fun _ => ⟨0, by decide, by decide⟩⟩, ?_⟩
    rintro _ ⟨⟩
    refine ⟨⟨by decide, fun _ => ⟨1, by decide, by decide⟩⟩, ?_⟩
    rintro _ ⟨⟩
    refine ⟨⟨by decide, fun _ => ⟨2, by decide, by decide⟩⟩, ?_⟩
    rintro _ ⟨⟩
    refine ⟨fun _ => ⟨2, by decide, by decide⟩, ?_⟩
    rintro _ ⟨⟩
    exact ⟨fun _ => ⟨2, by decide, by decide⟩, fun _ _ => trivial⟩
  obtain ⟨t, hrun, -, hdestroy⟩ := ht_run_dictionary callbacks_nat (fun _ => 1) 0 storingTwice hops
  exact ⟨t, hrun, List.perm_singleton.mp hdestroy⟩

end MorningProjects.Hash
