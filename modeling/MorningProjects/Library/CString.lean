import Mathlib.Data.List.TakeWhile
import Mathlib.Tactic

/-!
# C strings and fixed-width buffers

A C string is its bytes before the terminator. Copying a fixed number of bytes
from a string also copies what follows its terminator in memory; a buffer reads
back as a string only if it contains a terminator.
-/
namespace MorningProjects.Library

structure CString where
  bytes : List UInt8
  noNul : 0 ∉ bytes
  deriving DecidableEq

/-- The bytes of a text in the source. -/
def word (cs : List Char) : List UInt8 := cs.map Char.toUInt8

namespace CString

theorem ext {s t : CString} (h : s.bytes = t.bytes) : s = t := by
  cases s
  cases t
  cases h
  rfl

def empty : CString := ⟨[], List.not_mem_nil⟩

def strlen (s : CString) : ℕ := s.bytes.length

/-- What `strncpy` of at most `n` characters leaves in a zeroed field. -/
def strncpy (s : CString) (n : ℕ) : CString :=
  ⟨s.bytes.take n, fun h => s.noNul (List.mem_of_mem_take h)⟩

def concat (ss : List CString) : CString :=
  ⟨ss.flatMap bytes, fun h => by
    obtain ⟨s, -, hs⟩ := List.mem_flatMap.mp h
    exact s.noNul hs⟩

/-- The sign of `strncmp` on strings: the first difference within `n` characters. -/
def strncmpBytes : List UInt8 → List UInt8 → ℕ → ℤ
  | _, _, 0 => 0
  | [], [], _ + 1 => 0
  | [], _ :: _, _ + 1 => -1
  | _ :: _, [], _ + 1 => 1
  | a :: as, b :: bs, n + 1 => if a = b then strncmpBytes as bs n else if a < b then -1 else 1

def strncmp (s t : CString) (n : ℕ) : ℤ := strncmpBytes s.bytes t.bytes n

def strcmpBytes : List UInt8 → List UInt8 → ℤ
  | [], [] => 0
  | [], _ :: _ => -1
  | _ :: _, [] => 1
  | a :: as, b :: bs => if a = b then strcmpBytes as bs else if a < b then -1 else 1

def strcmp (s t : CString) : ℤ := strcmpBytes s.bytes t.bytes

def StartsWith (s t : CString) : Prop := t.bytes <+: s.bytes

instance (s t : CString) : Decidable (s.StartsWith t) :=
  inferInstanceAs (Decidable (t.bytes <+: s.bytes))

def Contains (s t : CString) : Prop := t.bytes <:+: s.bytes

instance (s t : CString) : Decidable (s.Contains t) :=
  inferInstanceAs (Decidable (t.bytes <:+: s.bytes))

/-- The `n` bytes at a string whose terminator is followed by `after`. -/
def memcpy (s : CString) (after : ℕ → UInt8) (n : ℕ) : List UInt8 :=
  (s.bytes ++ 0 :: (List.range n).map after).take n

/-- The characters of a buffer up to its terminator, or to its end. -/
def ofField (buf : List UInt8) : CString :=
  ⟨buf.takeWhile (fun b => b ≠ 0), fun h => by simpa using List.mem_takeWhile_imp h⟩

/-- The string a buffer holds, if it is terminated. -/
def ofBuffer (buf : List UInt8) : Option CString :=
  if 0 ∈ buf then some (ofField buf) else none

theorem strncmpBytes_length (as bs : List UInt8) :
    strncmpBytes as bs bs.length = 0 ↔ bs <+: as := by
  induction bs generalizing as with
  | nil => simp [strncmpBytes]
  | cons b bs ih =>
    cases as with
    | nil => simp [strncmpBytes]
    | cons a as =>
      by_cases hab : a = b
      · simp [strncmpBytes, hab, ih, List.cons_prefix_cons]
      · have hba : ¬ b = a := fun h => hab h.symm
        simp only [List.length_cons, strncmpBytes, if_neg hab, List.cons_prefix_cons, hba,
          false_and, iff_false]
        split_ifs <;> decide

theorem strcmpBytes_eq_zero (as bs : List UInt8) : strcmpBytes as bs = 0 ↔ as = bs := by
  induction as generalizing bs with
  | nil => cases bs <;> simp [strcmpBytes]
  | cons a as ih =>
    cases bs with
    | nil => simp [strcmpBytes]
    | cons b bs =>
      by_cases hab : a = b
      · simp [strcmpBytes, hab, ih]
      · rw [strcmpBytes, if_neg hab]
        simp only [List.cons.injEq, hab, false_and, iff_false]
        split_ifs <;> decide

variable {s t : CString}

/-- Comparing up to the length of the second string finds strings that start with it. -/
@[simp] theorem strncmp_strlen : strncmp s t t.strlen = 0 ↔ s.StartsWith t :=
  strncmpBytes_length s.bytes t.bytes

@[simp] theorem strcmp_eq_zero : strcmp s t = 0 ↔ s = t := by
  rw [strcmp, strcmpBytes_eq_zero]
  constructor
  · exact ext
  · intro h
    rw [h]

theorem startsWith_self (s : CString) : s.StartsWith s := List.prefix_refl s.bytes

@[simp] theorem bytes_strncpy (s : CString) (n : ℕ) : (s.strncpy n).bytes = s.bytes.take n := rfl

theorem strlen_strncpy (s : CString) (n : ℕ) : (s.strncpy n).strlen = min n s.strlen :=
  List.length_take

theorem strlen_concat (ss : List CString) : (concat ss).strlen = (ss.map strlen).sum :=
  List.length_flatMap

theorem strncpy_of_le {n : ℕ} (h : s.strlen ≤ n) : s.strncpy n = s :=
  ext (List.take_of_length_le h)

theorem length_memcpy (s : CString) (after : ℕ → UInt8) (n : ℕ) :
    (s.memcpy after n).length = n := by
  simp [memcpy]
  omega

/-- A string that fits into the field is read back, terminated or not. -/
theorem ofField_memcpy {n : ℕ} (h : s.strlen ≤ n) (after : ℕ → UInt8) :
    ofField (s.memcpy after n) = s := by
  apply ext
  change (s.memcpy after n).takeWhile _ = s.bytes
  rw [memcpy, List.take_append, List.take_of_length_le h, List.takeWhile_append_of_pos]
  · cases n - s.bytes.length with
    | zero => exact List.append_nil s.bytes
    | succ k => simp
  · intro b hb
    have hb0 : b ≠ 0 := fun h0 => s.noNul (h0 ▸ hb)
    simpa using hb0

theorem ofField_memcpy_eq (s : CString) (n : ℕ) (after : ℕ → UInt8) :
    ofField (s.memcpy after n) = s.strncpy n := by
  by_cases h : s.strlen ≤ n
  · rw [ofField_memcpy h, strncpy_of_le h]
  · have hcopy : s.memcpy after n = s.bytes.take n := by
      rw [memcpy, List.take_append_of_le_length (not_le.mp h).le]
    apply ext
    change (s.memcpy after n).takeWhile _ = s.bytes.take n
    rw [hcopy, List.takeWhile_eq_self_iff]
    intro b hb
    have hb0 : b ≠ 0 := fun h0 => s.noNul (h0 ▸ List.mem_of_mem_take hb)
    simpa using hb0

theorem ofBuffer_memcpy {n : ℕ} (h : s.strlen < n) (after : ℕ → UInt8) :
    ofBuffer (s.memcpy after n) = some s := by
  have hmem : (0 : UInt8) ∈ s.memcpy after n := by
    rw [memcpy, List.take_append, List.take_of_length_le (le_of_lt h)]
    apply List.mem_append_right
    obtain ⟨k, hk⟩ := Nat.exists_eq_add_of_lt h
    have hlen : n - s.bytes.length = k + 1 := by
      rw [strlen] at hk
      omega
    rw [hlen, List.take_succ_cons]
    exact List.mem_cons_self
  rw [ofBuffer, if_pos hmem, ofField_memcpy (le_of_lt h)]

/-- A string that fills the buffer leaves no room for its terminator. -/
theorem ofBuffer_memcpy_of_le {n : ℕ} (h : n ≤ s.strlen) (after : ℕ → UInt8) :
    ofBuffer (s.memcpy after n) = none := by
  have hcopy : s.memcpy after n = s.bytes.take n := by
    rw [memcpy, List.take_append_of_le_length h]
  rw [ofBuffer, if_neg]
  rw [hcopy]
  exact fun hmem => s.noNul (List.mem_of_mem_take hmem)

end CString

end MorningProjects.Library
