import Mathlib.Tactic
import Mathlib.Data.List.DropRight

/-!
# Insertion by shifting

The front of an array is ordered by a key, entries of equal keys by themselves. A new
entry is inserted from behind: entries with a larger key move up by one, and the new one
is written where the first of the others is met. The place it is inserted from may hold
anything.
-/
namespace MorningProjects.Library

variable {α β ι : Type*}

def setAt (i : ℕ) (x : α) (a : List α) : Option (List α) :=
  if i < a.length then some (a.set i x) else none

/-- The entries before a place move up by one as long as they are passed. The result is the
place left free; a test of something that is no entry has no result. -/
def shiftUp (passed : α → Option Bool) : ℕ → List α → Option (ℕ × List α)
  | 0, a => some (0, a)
  | j + 1, a =>
    a[j]?.bind fun x => (passed x).bind fun b =>
      if b then (setAt (j + 1) x a).bind (shiftUp passed j) else some (j + 1, a)

/-- The insertion of `x` from place `j`. -/
def insertFrom (passed : α → Option Bool) (j : ℕ) (x : α) (a : List α) : Option (List α) :=
  (shiftUp passed j a).bind fun (j, a) => setAt j x a

def insertPassing (passed : α → Bool) (x : α) (l : List α) : List α :=
  l.rdropWhile passed ++ x :: l.rtakeWhile passed

/-- The order by the key, and of entries with equal keys. -/
def Ahead [LT β] [LT ι] (key : ι → β) (a b : ι) : Prop := key a < key b ∨ key a = key b ∧ a < b

instance [LT β] [LT ι] [DecidableEq β] [DecidableLT β] [DecidableLT ι] (key : ι → β) (a b : ι) :
    Decidable (Ahead key a b) := inferInstanceAs (Decidable (_ ∨ _))

theorem setAt_append (front : List α) (x y : α) (rest : List α) :
    setAt front.length x (front ++ y :: rest) = some (front ++ x :: rest) := by
  rw [setAt, if_pos (by simp), List.set_append_right _ _ le_rfl, Nat.sub_self, List.set_cons_zero]

section Insert

variable {passed : α → Option Bool} {p : ι → Bool}

theorem insertPassing_perm (new : ι) (l : List ι) : (insertPassing p new l).Perm (new :: l) := by
  conv_rhs => rw [← List.rdropWhile_append_rtakeWhile (p := p) (l := l)]
  exact List.perm_middle

/-- The array after an insertion: only the front and the place behind it have changed. -/
theorem insertFrom_eq {f : ι → α} {l : List ι} (hpassed : ∀ y ∈ l, passed (f y) = some (p y))
    (new : ι) (stale : α) (rest : List α) :
    insertFrom passed l.length (f new) (l.map f ++ stale :: rest) =
      some ((insertPassing p new l).map f ++ rest) := by
  induction l using List.reverseRecOn generalizing stale rest with
  | nil => rfl
  | append_singleton l y ih =>
    have hread : ((l ++ [y]).map f ++ stale :: rest)[l.length]? = some (f y) := by simp
    have hplace : l.length + 1 = ((l ++ [y]).map f).length := by simp
    rw [insertFrom, List.length_append, List.length_singleton, shiftUp, hread, Option.bind_some,
      hpassed y (by simp), Option.bind_some]
    cases hy : p y with
    | true =>
      have hnext := ih (fun z hz => hpassed z (List.mem_append_left [y] hz)) (f y) (f y :: rest)
      rw [insertFrom] at hnext
      rw [if_pos rfl, hplace, setAt_append, Option.bind_some, List.map_append, List.map_singleton,
        List.append_assoc, List.singleton_append, hnext, insertPassing, insertPassing,
        List.rdropWhile_concat_pos _ _ _ hy, List.rtakeWhile_concat_pos _ _ _ hy]
      simp
    | false =>
      have hneg : ¬ p y = true := by simp [hy]
      rw [if_neg Bool.false_ne_true, Option.bind_some]
      dsimp only
      rw [hplace, setAt_append, insertPassing, List.rdropWhile_concat_neg _ _ _ hneg,
        List.rtakeWhile_concat_neg _ _ _ hneg]
      simp

end Insert

section Order

variable [LinearOrder β] [LinearOrder ι] {key : ι → β}

theorem Ahead.key_le {a b : ι} (h : Ahead key a b) : key a ≤ key b := by
  rcases h with h | ⟨h, -⟩
  · exact h.le
  · exact h.le

/-- What is not passed has no larger key, when the entries are ordered. -/
theorem key_le_of_mem_rdropWhile {l : List ι} (hl : l.Pairwise (Ahead key)) {x y : ι}
    (hy : y ∈ l.rdropWhile (key x < key ·)) : key y ≤ key x := by
  have hne : l.rdropWhile (key x < key ·) ≠ [] := List.ne_nil_of_mem hy
  have hlast := List.rdropWhile_last_not (key x < key ·) l hne
  rw [decide_eq_true_eq, not_lt] at hlast
  have hkept := hl.sublist (List.rdropWhile_prefix (key x < key ·) (l := l)).sublist
  rw [← List.dropLast_append_getLast hne, List.pairwise_append] at hkept
  rw [← List.dropLast_append_getLast hne, List.mem_append, List.mem_singleton] at hy
  rcases hy with hy | rfl
  · exact (hkept.2.2 y hy _ (List.mem_singleton_self _)).key_le.trans hlast
  · exact hlast

theorem pairwise_insertPassing {l : List ι} (hl : l.Pairwise (Ahead key)) {x : ι}
    (hx : ∀ y ∈ l, y < x) : (insertPassing (key x < key ·) x l).Pairwise (Ahead key) := by
  have hsplit := List.rdropWhile_append_rtakeWhile (p := (key x < key ·)) (l := l)
  have hparts := hl
  rw [← hsplit, List.pairwise_append] at hparts
  obtain ⟨hkept, htaken, hacross⟩ := hparts
  have hbefore : ∀ y ∈ l.rdropWhile (key x < key ·), Ahead key y x := by
    intro y hy
    have hmem : y ∈ l := (List.rdropWhile_prefix _ (l := l)).subset hy
    rcases (key_le_of_mem_rdropWhile hl hy).lt_or_eq with hlt | heq
    · exact Or.inl hlt
    · exact Or.inr ⟨heq, hx y hmem⟩
  have hbehind : ∀ y ∈ l.rtakeWhile (key x < key ·), Ahead key x y := by
    intro y hy
    have hpassed := List.mem_rtakeWhile_imp hy
    exact Or.inl (of_decide_eq_true hpassed)
  rw [insertPassing, List.pairwise_append, List.pairwise_cons]
  refine ⟨hkept, ⟨hbehind, htaken⟩, ?_⟩
  intro y hy z hz
  rcases List.mem_cons.mp hz with rfl | hz
  · exact hbefore y hy
  · exact hacross y hy z hz

def rankBy (key : ℕ → β) (n : ℕ) : List ℕ :=
  (List.range n).foldl (fun l i => insertPassing (key i < key ·) i l) []

theorem rankBy_succ (key : ℕ → β) (n : ℕ) :
    rankBy key (n + 1) = insertPassing (key n < key ·) n (rankBy key n) := by
  rw [rankBy, List.range_succ, List.foldl_append]
  rfl

theorem rankBy_perm (key : ℕ → β) (n : ℕ) : (rankBy key n).Perm (List.range n) := by
  induction n with
  | zero => exact List.Perm.nil
  | succ n ih =>
    rw [rankBy_succ, List.range_succ]
    exact (insertPassing_perm n _).trans ((ih.cons n).trans (List.perm_append_singleton n _).symm)

theorem lt_of_mem_rankBy {key : ℕ → β} {n i : ℕ} (h : i ∈ rankBy key n) : i < n :=
  List.mem_range.mp ((rankBy_perm key n).mem_iff.mp h)

theorem length_rankBy (key : ℕ → β) (n : ℕ) : (rankBy key n).length = n := by
  rw [(rankBy_perm key n).length_eq, List.length_range]

theorem rankBy_pairwise (key : ℕ → β) (n : ℕ) : (rankBy key n).Pairwise (Ahead key) := by
  induction n with
  | zero => exact List.Pairwise.nil
  | succ n ih =>
    rw [rankBy_succ]
    exact pairwise_insertPassing ih fun y hy => lt_of_mem_rankBy hy

/-- Entries inserted one after the other are ranked, whatever the array held. -/
theorem foldlM_insertFrom_eq {key : ℕ → β} {f : ℕ → α} {passed : ℕ → α → Option Bool} {n : ℕ}
    (hpassed : ∀ i < n, ∀ j < i, passed i (f j) = some (decide (key i < key j))) {a : List α}
    (ha : n ≤ a.length) :
    (List.range n).foldlM (fun a i => insertFrom (passed i) i (f i) a) a =
      some ((rankBy key n).map f ++ a.drop n) := by
  induction n with
  | zero => rfl
  | succ n ih =>
    have hround := ih (fun i hi => hpassed i (by omega)) (by omega)
    have hbefore : ∀ j ∈ rankBy key n, passed n (f j) = some (decide (key n < key j)) :=
      fun j hj => hpassed n (Nat.lt_succ_self n) j (lt_of_mem_rankBy hj)
    have hinsert := insertFrom_eq hbefore n a[n] (a.drop (n + 1))
    rw [length_rankBy] at hinsert
    rw [List.range_succ, List.foldlM_append, hround, List.drop_eq_getElem_cons (by omega : n < _)]
    simp only [List.foldlM_cons, List.foldlM_nil, Option.bind_eq_bind, Option.bind_some, hinsert]
    rw [rankBy_succ]
    rfl

theorem key_head_rankBy_le (key : ℕ → β) {n i : ℕ} (hi : i < n) (d : ℕ) :
    key ((rankBy key n).getD 0 d) ≤ key i := by
  have hmem : i ∈ rankBy key n := (rankBy_perm key n).mem_iff.mpr (List.mem_range.mpr hi)
  have hsorted := rankBy_pairwise key n
  cases hl : rankBy key n with
  | nil => rw [hl] at hmem; cases hmem
  | cons first l =>
    rw [hl] at hmem hsorted
    rw [List.getD_cons_zero]
    rcases List.mem_cons.mp hmem with rfl | hmem
    · exact le_rfl
    · exact (List.rel_of_pairwise_cons hsorted hmem).key_le

end Order

end MorningProjects.Library
