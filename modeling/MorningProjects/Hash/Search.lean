import MorningProjects.Hash.Table
import MorningProjects.Library.OpenAddressing

/-!
# `ht_lookup` as a search

A bucket holds an empty, a vacated or a live cell, and the loop of `ht_lookup`
is a search by open addressing over these cells.
-/
namespace MorningProjects.Hash
open Library

variable {K D : Type*}

def HtBucket.cell (b : HtBucket K D) : Cell K D :=
  if b.vacated then .vacated
  else
    match b.key, b.data with
    | some k, some d => .live k d
    | _, _ => .empty

def HtBucket.Live (b : HtBucket K D) : Prop := b.data.isSome ∧ b.vacated = false

/-- Data in a bucket that is not vacated came with a key. -/
def HtBucket.Keyed (b : HtBucket K D) : Prop :=
  b.vacated = false → b.data.isSome → b.key.isSome

def Hashtable.cells (t : Hashtable K D) (i : Fin numBuckets) : Cell K D := (t.ht i).cell

def Hashtable.Keyed (t : Hashtable K D) : Prop := ∀ i, (t.ht i).Keyed

def probePath (hash : K → Fin numBuckets) (rand : ℕ → UInt32) (key : K) : ℕ → Fin numBuckets
  | 0 => hash key
  | n + 1 => nextIndex (probePath hash rand key n) (rand n)

/-- The callbacks as the table needs them: `compare` returning 0 is an equivalence
on keys, and equal keys have equal hashes. -/
structure Callbacks (hash : K → Fin numBuckets) (compare : K → K → ℤ) : Prop where
  self : ∀ a, compare a a = 0
  symm : ∀ a b, compare a b = 0 → compare b a = 0
  trans : ∀ a b c, compare a b = 0 → compare b c = 0 → compare a c = 0
  hash : ∀ a b, compare a b = 0 → hash a = hash b

section Cells

variable {b : HtBucket K D} {k : K} {d : D}

theorem cell_of_vacated (h : b.vacated = true) : b.cell = .vacated := by
  simp [HtBucket.cell, h]

theorem cell_of_empty (hv : b.vacated = false) (hd : b.data.isNone) : b.cell = .empty := by
  have hnone : b.data = none := by simpa using hd
  simp [HtBucket.cell, hv, hnone]

theorem cell_of_live (hv : b.vacated = false) (hk : b.key = some k) (hd : b.data = some d) :
    b.cell = .live k d := by
  simp [HtBucket.cell, hv, hk, hd]

theorem live_of_cell (h : b.cell = .live k d) :
    b.vacated = false ∧ b.key = some k ∧ b.data = some d := by
  rw [HtBucket.cell] at h
  split_ifs at h with hv
  split at h
  · next k' d' hk hd =>
    cases h
    exact ⟨by simpa using hv, hk, hd⟩
  · cases h

theorem vacated_of_cell (h : b.cell = .vacated) : b.vacated = true := by
  by_contra hv
  rw [HtBucket.cell, if_neg hv] at h
  split at h <;> cases h

theorem data_of_empty (hb : b.Keyed) (h : b.cell = .empty) : b.data.isNone = true := by
  rw [HtBucket.cell] at h
  split_ifs at h with hv
  cases hd : b.data with
  | none => rfl
  | some d =>
    obtain ⟨k, hk⟩ := Option.isSome_iff_exists.mp (hb (by simpa using hv) (by simp [hd]))
    rw [hk, hd] at h
    cases h

theorem cells_update (n : UInt32) (t : Hashtable K D) (i : Fin numBuckets) (b : HtBucket K D) :
    (⟨n, Function.update t.ht i b⟩ : Hashtable K D).cells =
      Function.update t.cells i b.cell := by
  exact Function.comp_update HtBucket.cell t.ht i b

theorem Hashtable.Keyed.update {t : Hashtable K D} (h : t.Keyed) (n : UInt32)
    (i : Fin numBuckets) {b : HtBucket K D} (hb : b.Keyed) :
    (⟨n, Function.update t.ht i b⟩ : Hashtable K D).Keyed := by
  intro j
  change (Function.update t.ht i b j).Keyed
  by_cases hji : j = i
  · rw [hji, Function.update_self]
    exact hb
  · rw [Function.update_of_ne hji]
    exact h j

end Cells

section Lookup

variable {hash : K → Fin numBuckets} {compare : K → K → ℤ} {rand : ℕ → UInt32}
  {t : Hashtable K D} {key : K}

theorem Callbacks.keyClasses (hc : Callbacks hash compare) (rand : ℕ → UInt32) :
    KeyClasses (probePath hash rand) fun a b => compare a b = 0 := by
  constructor
  · intro a b
    exact hc.symm a b
  · intro a b c
    exact hc.trans a b c
  · intro a b hab
    funext n
    induction n with
    | zero => exact hc.hash a b hab
    | succ n ih => rw [probePath, probePath, ih]

theorem toNat_probes {n : ℕ} (hn : n ≤ maxProbes) : (UInt32.ofNat n).toNat = n := by
  rw [UInt32.toNat_ofNat', Nat.mod_eq_of_lt]
  have : maxProbes = 2000 := rfl
  omega

variable (hash compare rand t key) in
/-- A search of `ht_lookup` that ended with `r`: it wrote the number of its probes and
the index of the bucket it returns. -/
structure Searched (r : Option (Fin numBuckets)) (out : ProbeOut) : Prop where
  search : Search (probePath hash rand) (fun a b => compare a b = 0) maxProbes t.cells key r
    out.probeCount.toNat
  location : ∀ i, r = some i → out.location = i

variable (hash rand t key) in
def VacatedAt (n : ℕ) (vacatedBucket : Option (Fin numBuckets)) (location : ℤ) : Prop :=
  ∀ i, vacatedBucket = some i →
    (∃ m < n, probePath hash rand key m = i ∧ t.cells i = .vacated) ∧ location = i

theorem Hashtable.Keyed.bucket_cases (ht : t.Keyed) (i : Fin numBuckets) :
    (t.ht i).vacated = false ∧ (t.ht i).data.isNone ∨ (t.ht i).vacated = true ∨
      ∃ k d, (t.ht i).vacated = false ∧ (t.ht i).key = some k ∧ (t.ht i).data = some d := by
  cases hv : (t.ht i).vacated with
  | true => exact .inr (.inl rfl)
  | false =>
    cases hd : (t.ht i).data with
    | none => exact .inl ⟨rfl, rfl⟩
    | some d =>
      obtain ⟨k, hk⟩ := Option.isSome_iff_exists.mp (ht i hv (by simp [hd]))
      exact .inr (.inr ⟨k, d, rfl, hk, rfl⟩)

/-- One iteration of the loop, given what the rest of the search does. -/
theorem htProbe_searched (ht : t.Keyed) {n : ℕ} (hn : n ≤ maxProbes)
    {vacatedBucket : Option (Fin numBuckets)} {location : ℤ}
    (hvac : VacatedAt hash rand t key n vacatedBucket location)
    (hpass : ∀ m < n, Passes (fun a b => compare a b = 0) key
      (t.cells (probePath hash rand key m)))
    {next : Option (Fin numBuckets) → ℤ → Option (Option (Fin numBuckets) × ProbeOut)}
    (hnext : ∀ v l, VacatedAt hash rand t key (n + 1) v l →
      (∀ m ≤ n, Passes (fun a b => compare a b = 0) key (t.cells (probePath hash rand key m))) →
      ∃ r out, next v l = some (r, out) ∧ Searched hash compare rand t key r out) :
    ∃ r out, htProbe compare t key n (probePath hash rand key n) vacatedBucket location next =
        some (r, out) ∧ Searched hash compare rand t key r out := by
  have hpass' : Passes (fun a b => compare a b = 0) key (t.cells (probePath hash rand key n)) →
      ∀ m ≤ n, Passes (fun a b => compare a b = 0) key
        (t.cells (probePath hash rand key m)) := by
    intro hp m hm
    rcases Nat.lt_or_eq_of_le hm with hlt | rfl
    · exact hpass m hlt
    · exact hp
  have hvac' : VacatedAt hash rand t key (n + 1) vacatedBucket location := by
    intro i hi
    obtain ⟨⟨m, hm, hmi⟩, hl⟩ := hvac i hi
    exact ⟨⟨m, by omega, hmi⟩, hl⟩
  rcases ht.bucket_cases (probePath hash rand key n) with ⟨hv, hd⟩ | hv | ⟨k, d, hv, hk, hd⟩
  · -- an empty bucket ends the search
    have hend := cell_of_empty hv hd
    cases vacatedBucket with
    | none =>
      refine ⟨some (probePath hash rand key n), ⟨UInt32.ofNat n, probePath hash rand key n⟩,
        by simp only [htProbe, hv, hd, and_self, if_true], ?_, ?_⟩
      · rw [toNat_probes hn]
        exact Search.available hn hpass hend (.inl rfl)
      · intro i hi
        rw [← Option.some.inj hi]
    | some v =>
      obtain ⟨hm, hl⟩ := hvac v rfl
      refine ⟨some v, ⟨UInt32.ofNat n, location⟩,
        by simp only [htProbe, hv, hd, and_self, if_true], ?_, ?_⟩
      · rw [toNat_probes hn]
        exact Search.available hn hpass hend (.inr hm)
      · intro i hi
        rw [← Option.some.inj hi]
        exact hl
  · have hcell : t.cells (probePath hash rand key n) = .vacated := cell_of_vacated hv
    have hp := hpass' (by rw [hcell]; exact passes_vacated key)
    cases vacatedBucket with
    | none =>
      have hfirst : VacatedAt hash rand t key (n + 1) (some (probePath hash rand key n))
          (probePath hash rand key n) := by
        intro i hi
        obtain rfl := Option.some.inj hi
        exact ⟨⟨n, by omega, rfl, hcell⟩, rfl⟩
      obtain ⟨r, out, hr, hs⟩ := hnext _ _ hfirst hp
      exact ⟨r, out, by simp [htProbe, hv, hr], hs⟩
    | some v =>
      obtain ⟨r, out, hr, hs⟩ := hnext _ _ hvac' hp
      exact ⟨r, out, by simp [htProbe, hv, hr], hs⟩
  · have hcell : t.cells (probePath hash rand key n) = .live k d := cell_of_live hv hk hd
    by_cases h0 : compare k key = 0
    · refine ⟨some (probePath hash rand key n), ⟨UInt32.ofNat n, probePath hash rand key n⟩,
        by simp [htProbe, hv, hk, hd, h0], ?_, ?_⟩
      · rw [toNat_probes hn]
        exact Search.duplicated hn hpass hcell h0
      · intro i hi
        rw [← Option.some.inj hi]
    · have hp := hpass' (by rw [hcell]; exact passes_live.mpr h0)
      obtain ⟨r, out, hr, hs⟩ := hnext _ _ hvac' hp
      exact ⟨r, out, by simp [htProbe, hv, hk, hd, h0, hr], hs⟩

theorem htLookupFrom_searched (ht : t.Keyed) {left : ℕ} (hleft : left ≤ maxProbes)
    {vacatedBucket : Option (Fin numBuckets)} {location : ℤ}
    (hvac : VacatedAt hash rand t key (maxProbes - left) vacatedBucket location)
    (hpass : ∀ m < maxProbes - left,
      Passes (fun a b => compare a b = 0) key (t.cells (probePath hash rand key m))) :
    ∃ r out, htLookupFrom compare rand t key left
        (probePath hash rand key (maxProbes - left)) vacatedBucket location = some (r, out) ∧
      Searched hash compare rand t key r out := by
  induction left generalizing vacatedBucket location with
  | zero =>
    apply htProbe_searched ht le_rfl hvac hpass
    intro v l hv hp
    refine ⟨_, _, rfl, ?_, ?_⟩
    · rw [toNat_probes le_rfl]
      exact Search.exhausted hp
    · intro i hi
      cases hi
  | succ left ih =>
    apply htProbe_searched ht (Nat.sub_le _ _) hvac hpass
    intro v l hv hp
    have hidx : maxProbes - left = maxProbes - (left + 1) + 1 := by omega
    rw [hidx] at ih
    exact ih (by omega) hv fun m hm => hp m (by omega)

variable (hash compare rand) in
theorem htLookup_searched (ht : t.Keyed) (key : K) (out : ProbeOut) :
    ∃ r out', htLookup compare rand hash t key out = some (r, out') ∧
      Searched hash compare rand t key r out' := by
  have hvac : VacatedAt hash rand t key (maxProbes - maxProbes) none out.location := by
    intro i hi
    cases hi
  rw [htLookup]
  exact htLookupFrom_searched ht le_rfl hvac fun m hm => by omega

end Lookup

end MorningProjects.Hash
