import MorningProjects.Library.CString

/-!
# Character fields of a record

`strcpy` writes a string and its terminator over the first bytes of a field. It
has no result when they do not fit, and the bytes behind them stay as they were.
`strncpy` to a zeroed field leaves a string there if the field is longer than
what is copied at most.
-/
namespace MorningProjects.Library

structure Field (n : ℕ) where
  bytes : List UInt8
  size : bytes.length = n
  deriving DecidableEq

namespace Field

variable {n : ℕ}

def zeroed (n : ℕ) : Field n := ⟨List.replicate n 0, List.length_replicate⟩

theorem length_strcpy (f : Field n) {s : CString} (h : s.strlen < n) :
    (s.bytes ++ 0 :: f.bytes.drop (s.strlen + 1)).length = n := by
  rw [List.length_append, List.length_cons, List.length_drop, f.size]
  rw [CString.strlen] at h ⊢
  omega

def strcpy (f : Field n) (s : CString) : Option (Field n) :=
  if h : s.strlen < n then
    some ⟨s.bytes ++ 0 :: f.bytes.drop (s.strlen + 1), length_strcpy f h⟩
  else none

/-- The string the field holds, if it is terminated. -/
def read (f : Field n) : Option CString := CString.ofBuffer f.bytes

def strncpy (n : ℕ) (s : CString) (k : ℕ) : Field n :=
  ⟨(s.strncpy k).memcpy (fun _ => 0) n, CString.length_memcpy ..⟩

variable {f g : Field n} {s : CString}

theorem strcpy_isSome : (f.strcpy s).isSome ↔ s.strlen < n := by
  rw [strcpy]
  split_ifs with h
  · simp [h]
  · simp [h]

theorem read_strcpy (h : f.strcpy s = some g) : g.read = some s := by
  rw [strcpy] at h
  split_ifs at h
  cases h
  rw [read, CString.ofBuffer, if_pos (by simp)]
  congr 1
  apply CString.ext
  change (s.bytes ++ 0 :: _).takeWhile _ = s.bytes
  rw [List.takeWhile_append_of_pos]
  · simp
  · intro b hb
    have hb0 : b ≠ 0 := fun h0 => s.noNul (h0 ▸ hb)
    simpa using hb0

theorem read_strncpy (s : CString) {k : ℕ} (h : k < n) :
    (strncpy n s k).read = some (s.strncpy k) := by
  apply CString.ofBuffer_memcpy
  rw [CString.strlen_strncpy]
  omega

/-- What is read from a zeroed field after `strncpy`. -/
def readBack (s : CString) {k : ℕ} (h : k < n) : CString :=
  (strncpy n s k).read.get (by rw [read_strncpy s h]; rfl)

theorem readBack_eq (s : CString) {k : ℕ} (h : k < n) : readBack s h = s.strncpy k :=
  Option.get_of_eq_some _ (read_strncpy s h)

end Field

end MorningProjects.Library
