import MorningProjects.Hash.Run
import MorningProjects.Library.CString
import Mathlib.Data.Nat.Digits.Lemmas

/-!
# String keys with a comparison of integers

`hashit` hashes its keys as strings and compares them as `int32_t`: the first four
bytes decide. The table keeps strings apart that differ in these bytes.
-/
namespace MorningProjects.Hash
open Library

/-- A string in memory, with the bytes that lie behind its terminator. -/
structure StringKey where
  str : CString
  behind : ℕ → UInt8

def int32Of (bytes : List UInt8) : ℤ :=
  let n : ℕ := Nat.ofDigits 256 (bytes.map UInt8.toNat)
  if n < 2 ^ 31 then n else (n : ℤ) - 2 ^ 32

def sizeofInt32 : ℕ := 4

def StringKey.intValue (key : StringKey) : ℤ := int32Of (key.str.memcpy key.behind sizeofInt32)

def compare (key1 key2 : StringKey) : ℤ :=
  if key1.intValue = key2.intValue then 0
  else if key1.intValue < key2.intValue then -1
  else 1

/-- The offsets of the bytes that `compare` reads of either key. -/
def compareOffsets : List ℕ := List.range sizeofInt32

def signExtend (c : UInt8) : UInt32 := if c < 128 then c.toUInt32 else c.toUInt32 + 0xFFFFFF00

def time33 (p : StringKey) : Fin numBuckets :=
  ⟨((p.str.bytes.take (p.str.strlen % 2 ^ 32)).foldl (fun hash c => hash * 33 + signExtend c)
    (0 : UInt32)).toNat % numBuckets, Nat.mod_lt _ (by decide)⟩

/-! ### What the table needs -/

/-- The comparison tells strings apart, reads nothing behind their terminators, and strings it takes
for equal hash to one bucket. -/
structure KeysAgree (key1 key2 : StringKey) : Prop where
  zero_iff : compare key1 key2 = 0 ↔ key1.str = key2.str
  inside : ∀ i ∈ compareOffsets, i ≤ key1.str.strlen ∧ i ≤ key2.str.strlen
  hash : compare key1 key2 = 0 → time33 key1 = time33 key2

/-- In every state that a run on keys of a set reaches, a string is in one bucket, and looking up a
key finds the data last stored for its string. -/
def KeepsDistinct (D : Type*) (keys : Set StringKey) : Prop :=
  ∀ (rand : ℕ → UInt32) (numData : UInt32) (ops : List (HtOp keys D)) (s : HtState keys D),
    runFrom (htStep (fun a b => compare a.1 b.1) rand fun a => time33 a.1) (.create numData) ops =
      some s →
    (∀ i j k k', (s.table.ht i).Live → (s.table.ht j).Live → (s.table.ht i).key = some k →
      (s.table.ht j).key = some k' → k.1.str = k'.1.str → i = j) ∧
    ∀ key k d out, (s.history.find? fun e => e.key.1.str = key.1.str) = some (.inserted k d) →
      ∃ i k' out', s.table.ht i = ⟨some k', some d, false⟩ ∧ k'.1.str = key.1.str ∧
        htLookupData (fun a b => compare a.1 b.1) rand (fun a => time33 a.1) s.table key out =
          some (.ok, some d, out') ∧ out'.location = i

/-- Both strings fill the first four bytes, with their terminators, and these tell them apart. -/
def Distinguished (key1 key2 : StringKey) : Prop :=
  3 ≤ key1.str.strlen ∧ 3 ≤ key2.str.strlen ∧
    (key1.str = key2.str ∨
      (key1.str.bytes ++ [0]).take sizeofInt32 ≠ (key2.str.bytes ++ [0]).take sizeofInt32)

section Compare

variable {key1 key2 : StringKey}

theorem int32Of_inj {bytes1 bytes2 : List UInt8} (h1 : bytes1.length = sizeofInt32)
    (h2 : bytes2.length = sizeofInt32) (h : int32Of bytes1 = int32Of bytes2) : bytes1 = bytes2 := by
  have hdigit : ∀ bytes : List UInt8, ∀ n ∈ bytes.map UInt8.toNat, n < 256 := by
    intro bytes n hn
    obtain ⟨b, -, rfl⟩ := List.mem_map.mp hn
    exact b.toNat_lt
  have hlt : ∀ bytes : List UInt8, bytes.length = sizeofInt32 →
      Nat.ofDigits 256 (bytes.map UInt8.toNat) < 2 ^ 32 := by
    intro bytes hlength
    have hpow := Nat.ofDigits_lt_base_pow_length (by decide) (hdigit bytes)
    rw [List.length_map, hlength] at hpow
    exact hpow
  have hn1 := hlt bytes1 h1
  have hn2 := hlt bytes2 h2
  have hvalue : Nat.ofDigits 256 (bytes1.map UInt8.toNat) =
      Nat.ofDigits 256 (bytes2.map UInt8.toNat) := by
    rw [int32Of, int32Of] at h
    split_ifs at h <;> omega
  have hdigits := Nat.ofDigits_inj_of_len_eq (by decide)
    (by rw [List.length_map, List.length_map, h1, h2]) (hdigit bytes1) (hdigit bytes2) hvalue
  apply List.map_injective_iff.mpr _ hdigits
  intro a b hab
  exact UInt8.toNat_inj.mp hab

theorem compare_eq_zero :
    compare key1 key2 = 0 ↔
      key1.str.memcpy key1.behind sizeofInt32 = key2.str.memcpy key2.behind sizeofInt32 := by
  have hvalues : compare key1 key2 = 0 ↔ key1.intValue = key2.intValue := by
    rw [compare]
    split_ifs <;> simp_all
  rw [hvalues]
  constructor
  · intro h
    exact int32Of_inj (CString.length_memcpy ..) (CString.length_memcpy ..) h
  · intro h
    rw [StringKey.intValue, StringKey.intValue, h]

theorem memcpy_eq {s : CString} (h : 3 ≤ s.strlen) (after : ℕ → UInt8) :
    s.memcpy after sizeofInt32 = (s.bytes ++ [0]).take sizeofInt32 := by
  have hlength : sizeofInt32 ≤ (s.bytes ++ [0]).length := by
    rw [List.length_append, List.length_singleton]
    exact Nat.succ_le_succ h
  rw [CString.memcpy, List.append_cons, List.take_append_of_le_length hlength]

theorem mem_compareOffsets {n : ℕ} : (∀ i ∈ compareOffsets, i ≤ n) ↔ 3 ≤ n := by
  rw [compareOffsets, sizeofInt32]
  constructor
  · intro h
    exact h 3 (by decide)
  · intro h i hi
    have hlt := List.mem_range.mp hi
    omega

theorem keysAgree_iff : KeysAgree key1 key2 ↔ Distinguished key1 key2 := by
  constructor
  · rintro ⟨hzero, hinside, -⟩
    have h1 := mem_compareOffsets.mp fun i hi => (hinside i hi).1
    have h2 := mem_compareOffsets.mp fun i hi => (hinside i hi).2
    refine ⟨h1, h2, ?_⟩
    by_cases hstr : key1.str = key2.str
    · exact .inl hstr
    · right
      rw [compare_eq_zero, memcpy_eq h1, memcpy_eq h2] at hzero
      exact fun heq => hstr (hzero.mp heq)
  · rintro ⟨h1, h2, hdistinct⟩
    have hzero : compare key1 key2 = 0 ↔ key1.str = key2.str := by
      rw [compare_eq_zero, memcpy_eq h1, memcpy_eq h2]
      constructor
      · intro heq
        exact hdistinct.resolve_right (not_not_intro heq)
      · intro heq
        rw [heq]
    refine ⟨hzero, ?_, ?_⟩
    · intro i hi
      exact ⟨mem_compareOffsets.mpr h1 i hi, mem_compareOffsets.mpr h2 i hi⟩
    · intro h
      simp only [time33, hzero.mp h]

end Compare

/-- On keys that agree the callbacks are as the table needs them. -/
theorem callbacks_strings {keys : Set StringKey}
    (h : ∀ key1 ∈ keys, ∀ key2 ∈ keys, KeysAgree key1 key2) :
    Callbacks (fun a : keys => time33 a.1) (fun a b : keys => compare a.1 b.1) := by
  have hzero : ∀ a b : keys, compare a.1 b.1 = 0 ↔ a.1.str = b.1.str :=
    fun a b => (h a.1 a.2 b.1 b.2).zero_iff
  constructor
  · intro a
    exact (hzero a a).mpr rfl
  · intro a b hab
    exact (hzero b a).mpr ((hzero a b).mp hab).symm
  · intro a b c hab hbc
    exact (hzero a c).mpr (((hzero a b).mp hab).trans ((hzero b c).mp hbc))
  · intro a b hab
    exact (h a.1 a.2 b.1 b.2).hash hab

theorem keepsDistinct (D : Type*) {keys : Set StringKey}
    (h : ∀ key1 ∈ keys, ∀ key2 ∈ keys, KeysAgree key1 key2) : KeepsDistinct D keys := by
  intro rand numData ops s hrun
  have hzero : ∀ a b : keys, compare a.1 b.1 = 0 ↔ a.1.str = b.1.str :=
    fun a b => (h a.1 a.2 b.1 b.2).zero_iff
  have hc := callbacks_strings h
  have hsound := HtState.sound_run hc numData hrun
  constructor
  · intro i j k k' hi hj hk hk' heq
    exact hsound.unique hi hj hk hk' ((hzero k k').mpr heq)
  · intro key k d out hfind
    have hlast : lastOperation (fun a b : keys => compare a.1 b.1) s.history key =
        some (.inserted k d) := by
      rw [lastOperation, ← hfind]
      congr 1
      funext e
      rw [decide_eq_decide]
      exact hzero e.key key
    obtain ⟨i, k', out', hi, hk', hlookup, hlocation⟩ := hsound.lookup hc out hlast
    exact ⟨i, k', out', hi, (hzero k' key).mp hk', hlookup, hlocation⟩

/-- For every set of keys, whatever lies behind them in memory: the callbacks agree on every two of
them and the table keeps them apart, exactly if every two are distinguished. -/
theorem string_keys_iff (D : Type*) (keys : Set StringKey) :
    ((∀ key1 ∈ keys, ∀ key2 ∈ keys, KeysAgree key1 key2) ∧ KeepsDistinct D keys) ↔
      ∀ key1 ∈ keys, ∀ key2 ∈ keys, Distinguished key1 key2 := by
  have hagree : (∀ key1 ∈ keys, ∀ key2 ∈ keys, KeysAgree key1 key2) ↔
      ∀ key1 ∈ keys, ∀ key2 ∈ keys, Distinguished key1 key2 := by
    apply forall₂_congr
    intro key1 _
    apply forall₂_congr
    intro key2 _
    exact keysAgree_iff
  rw [← hagree]
  constructor
  · intro h
    exact h.1
  · intro h
    exact ⟨h, keepsDistinct D h⟩

def apple : StringKey := ⟨⟨word ['a', 'p', 'p', 'l', 'e'], by decide⟩, fun _ => 0⟩

def apply : StringKey := ⟨⟨word ['a', 'p', 'p', 'l', 'y'], by decide⟩, fun _ => 0⟩

/-- Two words that begin with the same four letters. -/
theorem not_keysAgree : ¬ KeysAgree apple apply := by
  intro h
  have hequal := h.zero_iff.mp (compare_eq_zero.mpr (by decide))
  exact absurd hequal (by decide)

end MorningProjects.Hash
