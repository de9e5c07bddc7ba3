import Mathlib.Tactic

/-!
# Formatting

Texts as bytes, and what `snprintf` and `strncat` make of them. `snprintf` cuts what has no
room; `strncat` is given the length of what it appends, so that nothing cuts it.
-/
namespace MorningProjects.Library

/-- The decimal digits of a number that has at most as many as given. -/
def decimalDigits : ℕ → ℕ → List UInt8
  | 0, _ => []
  | digits + 1, n =>
    if n < 10 then [UInt8.ofNat (48 + n)]
    else decimalDigits digits (n / 10) ++ [UInt8.ofNat (48 + n % 10)]

/-- `%d` of an unsigned argument, which is taken for a signed one. -/
def percentD (n : UInt32) : List UInt8 :=
  if n.toNat < 2 ^ 31 then decimalDigits 10 n.toNat
  else 45 :: decimalDigits 10 (2 ^ 32 - n.toNat)

def padded (width : ℕ) (s : List UInt8) : List UInt8 :=
  List.replicate (width - s.length) 32 ++ s

/-- `snprintf` into a buffer of the given size. -/
def snprintf (size : ℕ) (parts : List (List UInt8)) : List UInt8 := parts.flatten.take (size - 1)

/-- `strncat(text, s, strlen(s))` in a buffer of the given size; no result past its end. -/
def strncat (size : ℕ) (text s : List UInt8) : Option (List UInt8) :=
  if text.length + s.length < size then some (text ++ s) else none

theorem length_decimalDigits_le (digits n : ℕ) : (decimalDigits digits n).length ≤ digits := by
  induction digits generalizing n with
  | zero => exact le_rfl
  | succ digits ih =>
    rw [decimalDigits]
    split_ifs
    · exact Nat.succ_le_succ (Nat.zero_le digits)
    · rw [List.length_append]
      exact Nat.succ_le_succ (ih (n / 10))

theorem length_percentD_le (n : UInt32) : (percentD n).length ≤ 11 := by
  rw [percentD]
  split_ifs
  · exact (length_decimalDigits_le 10 _).trans (by decide)
  · exact Nat.succ_le_succ (length_decimalDigits_le 10 _)

theorem length_snprintf_le (size : ℕ) (parts : List (List UInt8)) :
    (snprintf size parts).length ≤ size - 1 := by
  rw [snprintf, List.length_take]
  exact min_le_left _ _

theorem foldlM_strncat (size : ℕ) (entries : List (List UInt8)) {text : List UInt8}
    (h : text.length < size) : entries.foldlM (strncat size) text =
      if text.length + entries.flatten.length < size then some (text ++ entries.flatten)
      else none := by
  induction entries generalizing text with
  | nil => simp [h]
  | cons entry entries ih =>
    rw [List.foldlM_cons, strncat, List.flatten_cons, List.length_append]
    by_cases hfits : text.length + entry.length < size
    · rw [if_pos hfits]
      have hnext : (text ++ entry).length < size := by rwa [List.length_append]
      have hrest := ih hnext
      rw [List.length_append, Nat.add_assoc, List.append_assoc] at hrest
      exact hrest
    · rw [if_neg hfits, if_neg (by omega)]
      rfl

end MorningProjects.Library
