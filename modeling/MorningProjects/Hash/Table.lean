import MorningProjects.Common.Status
import Mathlib.Logic.Function.Basic

/-!
# The hash table

Buckets are found by open addressing along a pseudo-random path; `srand` starts
every search with the same `rand` sequence. A search gives up after
`100*NUM_BUCKETS` probes, and its callers then hold a NULL bucket. Keys and data
are pointers, NULL being `none`; a result `none` of a call means that it
dereferences NULL or hands a NULL key to the `compare` callback.
-/
namespace MorningProjects.Hash

def numBuckets : ℕ := 20

def maxProbes : ℕ := 100 * numBuckets

structure HtBucket (K D : Type*) where
  key : Option K
  data : Option D
  vacated : Bool
  deriving DecidableEq, Repr

structure Hashtable (K D : Type*) where
  numData : UInt32
  ht : Fin numBuckets → HtBucket K D

/-- `*p_probe_count` and `*p_location`. -/
structure ProbeOut where
  probeCount : UInt32
  location : ℤ
  deriving DecidableEq, Repr

variable {K D : Type*}

/-- `HT_create` clears the buckets and leaves `num_data` as `malloc` returned it. -/
def htCreate (numData : UInt32) : Hashtable K D :=
  ⟨numData, fun _ => ⟨none, none, false⟩⟩

def nextIndex (index : Fin numBuckets) (r : UInt32) : Fin numBuckets :=
  ⟨(UInt32.ofNat index.val + r).toNat % numBuckets, Nat.mod_lt _ (by decide)⟩

section Search

variable (compare : K → K → ℤ) (rand : ℕ → UInt32)

/-- The loop of `ht_lookup` at one bucket. The loop ends with the bucket returned, NULL
being `none`, or goes on to the cut-off test with the first vacated bucket so far. -/
def htProbe (t : Hashtable K D) (key : K) (count : ℕ) (index : Fin numBuckets)
    (vacatedBucket : Option (Fin numBuckets)) (location : ℤ)
    (next : Option (Fin numBuckets) → ℤ → Option (Option (Fin numBuckets) × ProbeOut)) :
    Option (Option (Fin numBuckets) × ProbeOut) :=
  let bucket := t.ht index
  if bucket.data.isNone ∧ bucket.vacated = false then
    match vacatedBucket with
    | some v => some (some v, ⟨UInt32.ofNat count, location⟩)
    | none => some (some index, ⟨UInt32.ofNat count, index⟩)
  else if bucket.vacated then
    match vacatedBucket with
    | some v => next (some v) location
    | none => next (some index) index
  else
    bucket.key.bind fun k =>
      if compare k key = 0 then some (some index, ⟨UInt32.ofNat count, index⟩)
      else next vacatedBucket location

/-- The loop of `ht_lookup` with `left` probes left before it gives up. -/
def htLookupFrom (t : Hashtable K D) (key : K) :
    ℕ → Fin numBuckets → Option (Fin numBuckets) → ℤ →
      Option (Option (Fin numBuckets) × ProbeOut)
  | 0, index, vacatedBucket, location =>
    htProbe compare t key maxProbes index vacatedBucket location
      fun _ location => some (none, ⟨UInt32.ofNat maxProbes, location⟩)
  | left + 1, index, vacatedBucket, location =>
    htProbe compare t key (maxProbes - (left + 1)) index vacatedBucket location
      fun vacatedBucket location =>
        htLookupFrom t key left (nextIndex index (rand (maxProbes - (left + 1)))) vacatedBucket
          location

variable (hash : K → Fin numBuckets)

def htLookup (t : Hashtable K D) (key : K) (out : ProbeOut) :
    Option (Option (Fin numBuckets) × ProbeOut) :=
  htLookupFrom compare rand t key maxProbes (hash key) none out.location

/-- `HT_insert`: the status, the table and the output parameters. -/
def htInsert (t : Hashtable K D) (key : K) (data : Option D) (out : ProbeOut) :
    Option (SystemStatus × Hashtable K D × ProbeOut) :=
  if t.numData = UInt32.ofNat numBuckets then some (.databaseFull, t, out)
  else
    (htLookup compare rand hash t key out).bind fun (found, out) =>
      if out.probeCount = UInt32.ofNat maxProbes then some (.databaseNotFound, t, out)
      else
        found.bind fun i =>
          let bucket := t.ht i
          let store := (⟨t.numData + 1, Function.update t.ht i ⟨some key, data, false⟩⟩ :
            Hashtable K D)
          if bucket.data.isNone then some (.ok, store, out)
          else if bucket.vacated then some (.databaseOverwriten, store, out)
          else
            bucket.key.bind fun k =>
              if compare k key = 0 then some (.databaseOverwriten, store, out)
              else some (.databaseDuplicated, t, out)

/-- `HT_lookup`: the status, the data written to `*p_data` and the other output parameters. -/
def htLookupData (t : Hashtable K D) (key : K) (out : ProbeOut) :
    Option (SystemStatus × Option D × ProbeOut) :=
  (htLookup compare rand hash t key out).bind fun (found, out) =>
    found.map fun i =>
      let bucket := t.ht i
      if bucket.data.isNone ∨ bucket.vacated then
        (.databaseNotFound, none, { out with location := -1 })
      else (.ok, bucket.data, out)

/-- `HT_remove`: the status, the table, the datum given to the `remove` callback and
the output parameters. -/
def htRemove (t : Hashtable K D) (key : K) (out : ProbeOut) :
    Option (SystemStatus × Hashtable K D × Option D × ProbeOut) :=
  (htLookup compare rand hash t key out).bind fun (found, out) =>
    found.map fun i =>
      let bucket := t.ht i
      if bucket.data.isNone ∨ bucket.vacated then
        (.databaseNotFound, t, none, { out with location := -1 })
      else
        (.ok, ⟨t.numData - 1, Function.update t.ht i ⟨none, none, true⟩⟩, bucket.data, out)

end Search

end MorningProjects.Hash
