import Mathlib.Data.List.Sort
import Mathlib.Tactic

/-!
# Three-way comparators and the lists they order

A C comparator answers below zero, zero or above zero. When that answer is a
total preorder, inserting each element behind the elements it does not precede
is the stable sort, and keeping the first of each group of equal elements is
the same insertion with the elements already represented left out.
-/
namespace MorningProjects.Library

variable {α : Type*}

/-- The sign convention of a C comparator whose order is a total preorder. -/
structure TotalPreorder (compare : α → α → ℤ) : Prop where
  self : ∀ a, compare a a = 0
  flip : ∀ a b, compare a b < 0 ↔ 0 < compare b a
  trans : ∀ a b c, compare a b ≤ 0 → compare b c ≤ 0 → compare a c ≤ 0

namespace TotalPreorder

variable {compare : α → α → ℤ} (hc : TotalPreorder compare)
include hc

theorem le_of_not_lt {a b : α} (h : ¬ compare a b < 0) : compare b a ≤ 0 := by
  have := hc.flip a b
  omega

theorem not_lt_of_le {a b : α} (h : compare a b ≤ 0) : ¬ compare b a < 0 := by
  have := hc.flip b a
  omega

theorem eq_comm {a b : α} (h : compare a b = 0) : compare b a = 0 := by
  have := hc.flip a b
  have := hc.flip b a
  omega

theorem lt_of_lt_of_le {a b c : α} (hab : compare a b < 0) (hbc : compare b c ≤ 0) :
    compare a c < 0 := by
  by_contra h
  have hba := hc.trans b c a hbc (hc.le_of_not_lt h)
  exact hc.not_lt_of_le hba hab

theorem lt_of_le_of_lt {a b c : α} (hab : compare a b ≤ 0) (hbc : compare b c < 0) :
    compare a c < 0 := by
  by_contra h
  have hcb := hc.trans c a b (hc.le_of_not_lt h) hab
  exact hc.not_lt_of_le hcb hbc

theorem eq_trans {a b c : α} (hab : compare a b = 0) (hbc : compare b c = 0) :
    compare a c = 0 := by
  have h := hc.trans a b c hab.le hbc.le
  have h' := hc.trans c b a (hc.eq_comm hbc).le (hc.eq_comm hab).le
  have := hc.flip a c
  have := hc.flip c a
  omega

theorem gt_iff {a b : α} : 0 < compare a b ↔ compare b a < 0 := (hc.flip b a).symm

end TotalPreorder

section Sign

variable {x y : ℤ}

theorem neg_iff_of_sign_eq (h : x.sign = y.sign) : x < 0 ↔ y < 0 := by
  rw [← Int.sign_neg_iff, h, Int.sign_neg_iff]

theorem pos_iff_of_sign_eq (h : x.sign = y.sign) : 0 < x ↔ 0 < y := by
  rw [← Int.sign_pos_iff, h, Int.sign_pos_iff]

theorem eq_zero_iff_of_sign_eq (h : x.sign = y.sign) : x = 0 ↔ y = 0 := by
  rw [← Int.sign_eq_zero_iff_zero, h, Int.sign_eq_zero_iff_zero]

theorem nonpos_iff_of_sign_eq (h : x.sign = y.sign) : x ≤ 0 ↔ y ≤ 0 := by
  rw [← Int.sign_nonpos_iff, h, Int.sign_nonpos_iff]

end Sign

def SameSigns (compare compare' : α → α → ℤ) : Prop :=
  ∀ a b, (compare a b).sign = (compare' a b).sign

variable (compare : α → α → ℤ)

def Ordered (l : List α) : Prop := l.Pairwise (fun a b => compare a b ≤ 0)

def StrictlyOrdered (l : List α) : Prop := l.Pairwise (fun a b => compare a b < 0)

/-- Put an element in front of the first one it precedes, behind all its equals. -/
def insertAfter (x : α) : List α → List α
  | [] => [x]
  | a :: l => if compare x a < 0 then x :: a :: l else a :: insertAfter x l

/-- The same insertion, made only when no equal element is there. -/
def insertAbsent (x : α) (l : List α) : List α :=
  if ∃ e ∈ l, compare x e = 0 then l else insertAfter compare x l

def stableSort (l : List α) : List α := l.insertionSort (fun a b => compare a b ≤ 0)

def keepFirst : List α → List α
  | [] => []
  | a :: l => a :: (keepFirst l).filter (fun b => compare a b ≠ 0)

variable {compare}

theorem StrictlyOrdered.ordered {l : List α} (h : StrictlyOrdered compare l) :
    Ordered compare l :=
  h.imp (fun hab => hab.le)

theorem insertAfter_perm (x : α) (l : List α) : (insertAfter compare x l).Perm (x :: l) := by
  induction l with
  | nil => exact List.Perm.refl _
  | cons a l ih =>
    rw [insertAfter]
    split_ifs
    · exact List.Perm.refl _
    · exact (ih.cons a).trans (List.Perm.swap x a l)

theorem mem_insertAfter {x y : α} {l : List α} :
    y ∈ insertAfter compare x l ↔ y = x ∨ y ∈ l := by
  rw [(insertAfter_perm x l).mem_iff, List.mem_cons]

theorem insertAfter_eq_cons {x : α} {l : List α} (h : ∀ b ∈ l, compare x b < 0) :
    insertAfter compare x l = x :: l := by
  cases l with
  | nil => rfl
  | cons a l => simp [insertAfter, h a (by simp)]

theorem insertAfter_append_left {x d : α} (h : compare x d < 0) (l r : List α) :
    insertAfter compare x (l ++ d :: r) = insertAfter compare x l ++ d :: r := by
  induction l with
  | nil => simp [insertAfter, h]
  | cons a l ih =>
    simp only [List.cons_append, insertAfter]
    split_ifs
    · simp
    · simp [ih]

theorem insertAfter_append_right {x d : α} {l r : List α} (hd : ¬ compare x d < 0)
    (hl : ∀ a ∈ l, ¬ compare x a < 0) :
    insertAfter compare x (l ++ d :: r) = l ++ d :: insertAfter compare x r := by
  induction l with
  | nil => simp [insertAfter, hd]
  | cons a l ih =>
    have ha : ¬ compare x a < 0 := hl a (by simp)
    simp only [List.cons_append, insertAfter, if_neg ha]
    rw [ih (fun b hb => hl b (by simp [hb]))]

theorem insertAfter_eq_concat {x : α} {l : List α} (h : ∀ b ∈ l, ¬ compare x b < 0) :
    insertAfter compare x l = l ++ [x] := by
  induction l with
  | nil => rfl
  | cons a l ih =>
    rw [insertAfter, if_neg (h a (by simp)), ih fun b hb => h b (by simp [hb])]
    rfl

/-- The element goes in front of the first one it precedes. -/
theorem insertAfter_append_cons {x c : α} {l r : List α} (hl : ∀ b ∈ l, ¬ compare x b < 0)
    (hc : compare x c < 0) : insertAfter compare x (l ++ c :: r) = l ++ x :: c :: r := by
  rw [insertAfter_append_left hc, insertAfter_eq_concat hl, List.append_assoc]
  rfl

theorem ordered_split {l r : List α} {d : α} :
    Ordered compare (l ++ d :: r) ↔
      Ordered compare l ∧ Ordered compare r ∧ (∀ a ∈ l, compare a d ≤ 0) ∧
        (∀ b ∈ r, compare d b ≤ 0) ∧ ∀ a ∈ l, ∀ b ∈ r, compare a b ≤ 0 := by
  simp only [Ordered, List.pairwise_append, List.pairwise_cons, List.mem_cons, forall_eq_or_imp]
  constructor
  · rintro ⟨hl, ⟨hd, hr⟩, h⟩
    exact ⟨hl, hr, fun a ha => (h a ha).1, hd, fun a ha => (h a ha).2⟩
  · rintro ⟨hl, hr, hl', hd, h⟩
    exact ⟨hl, ⟨hd, hr⟩, fun a ha => ⟨hl' a ha, h a ha⟩⟩

theorem strictlyOrdered_split {l r : List α} {d : α} :
    StrictlyOrdered compare (l ++ d :: r) ↔
      StrictlyOrdered compare l ∧ StrictlyOrdered compare r ∧ (∀ a ∈ l, compare a d < 0) ∧
        (∀ b ∈ r, compare d b < 0) ∧ ∀ a ∈ l, ∀ b ∈ r, compare a b < 0 := by
  simp only [StrictlyOrdered, List.pairwise_append, List.pairwise_cons, List.mem_cons,
    forall_eq_or_imp]
  constructor
  · rintro ⟨hl, ⟨hd, hr⟩, h⟩
    exact ⟨hl, hr, fun a ha => (h a ha).1, hd, fun a ha => (h a ha).2⟩
  · rintro ⟨hl, hr, hl', hd, h⟩
    exact ⟨hl, ⟨hd, hr⟩, fun a ha => ⟨hl' a ha, h a ha⟩⟩

section Preorder

variable (hc : TotalPreorder compare)
include hc

theorem Ordered.insertAfter (x : α) {l : List α} (h : Ordered compare l) :
    Ordered compare (insertAfter compare x l) := by
  induction l with
  | nil => simp [Library.insertAfter, Ordered]
  | cons a l ih =>
    obtain ⟨ha, hl⟩ := List.pairwise_cons.mp h
    rw [Library.insertAfter]
    split_ifs with hx
    · refine List.pairwise_cons.mpr ⟨?_, h⟩
      intro b hb
      rcases List.mem_cons.mp hb with rfl | hb
      · exact hx.le
      · exact hc.trans x a b hx.le (ha b hb)
    · refine List.pairwise_cons.mpr ⟨?_, ih hl⟩
      intro b hb
      rcases mem_insertAfter.mp hb with rfl | hb
      · exact hc.le_of_not_lt hx
      · exact ha b hb

theorem insertAbsent_append_left {x d : α} (h : compare x d < 0) {l r : List α}
    (hr : ∀ e ∈ r, compare d e < 0) :
    insertAbsent compare x (l ++ d :: r) = insertAbsent compare x l ++ d :: r := by
  have hiff : (∃ e ∈ l ++ d :: r, compare x e = 0) ↔ ∃ e ∈ l, compare x e = 0 := by
    constructor
    · rintro ⟨e, he, hx⟩
      rcases List.mem_append.mp he with he | he
      · exact ⟨e, he, hx⟩
      · rcases List.mem_cons.mp he with rfl | he
        · exact absurd hx h.ne
        · exact absurd hx (hc.lt_of_lt_of_le h (hr e he).le).ne
    · rintro ⟨e, he, hx⟩
      exact ⟨e, List.mem_append_left _ he, hx⟩
  simp only [insertAbsent, hiff]
  split_ifs
  · rfl
  · exact insertAfter_append_left h l r

theorem insertAbsent_append_right {x d : α} (h : compare d x < 0) {l r : List α}
    (hl : ∀ e ∈ l, compare e d < 0) :
    insertAbsent compare x (l ++ d :: r) = l ++ d :: insertAbsent compare x r := by
  have hlx : ∀ e ∈ l, compare e x < 0 := fun e he => hc.lt_of_lt_of_le (hl e he) h.le
  have hiff : (∃ e ∈ l ++ d :: r, compare x e = 0) ↔ ∃ e ∈ r, compare x e = 0 := by
    constructor
    · rintro ⟨e, he, hx⟩
      rcases List.mem_append.mp he with he | he
      · exact absurd (hc.eq_comm hx) (hlx e he).ne
      · rcases List.mem_cons.mp he with rfl | he
        · exact absurd (hc.eq_comm hx) h.ne
        · exact ⟨e, he, hx⟩
    · rintro ⟨e, he, hx⟩
      exact ⟨e, List.mem_append_right _ (List.mem_cons_of_mem d he), hx⟩
  simp only [insertAbsent, hiff]
  split_ifs
  · rfl
  · exact insertAfter_append_right (hc.not_lt_of_le h.le) fun e he =>
      hc.not_lt_of_le (hlx e he).le

theorem StrictlyOrdered.insertAbsent (x : α) {l : List α} (h : StrictlyOrdered compare l) :
    StrictlyOrdered compare (insertAbsent compare x l) := by
  rw [Library.insertAbsent]
  split_ifs with hex
  · exact h
  · induction l with
    | nil => simp [Library.insertAfter, StrictlyOrdered]
    | cons a l ih =>
      obtain ⟨ha, hl⟩ := List.pairwise_cons.mp h
      have hxa : compare x a ≠ 0 := fun h0 => hex ⟨a, by simp, h0⟩
      rw [Library.insertAfter]
      split_ifs with hx
      · refine List.pairwise_cons.mpr ⟨?_, h⟩
        intro b hb
        rcases List.mem_cons.mp hb with rfl | hb
        · exact hx
        · exact hc.lt_of_lt_of_le hx (ha b hb).le
      · refine List.pairwise_cons.mpr ⟨?_, ih hl fun ⟨e, he, h0⟩ => hex ⟨e, by simp [he], h0⟩⟩
        intro b hb
        rcases mem_insertAfter.mp hb with rfl | hb
        · have := hc.gt_iff (a := b) (b := a)
          omega
        · exact ha b hb

/-- Insertion from the front and insertion behind the equals commute. -/
theorem orderedInsert_insertAfter (a x : α) (l : List α) :
    (insertAfter compare x l).orderedInsert (fun a b => compare a b ≤ 0) a =
      insertAfter compare x (l.orderedInsert (fun a b => compare a b ≤ 0) a) := by
  have hax : compare a x ≤ 0 ↔ ¬ compare x a < 0 :=
    ⟨hc.not_lt_of_le, hc.le_of_not_lt⟩
  induction l with
  | nil =>
    by_cases h : compare x a < 0 <;> simp [insertAfter, hax, h]
  | cons b l ih =>
    by_cases hxb : compare x b < 0
    · by_cases hab : compare a b ≤ 0
      · by_cases hxa : compare x a < 0 <;> simp [insertAfter, hax, hxb, hab, hxa]
      · have hba : compare b a < 0 := by
          by_contra h
          exact hab (hc.le_of_not_lt h)
        have hxa : compare x a < 0 := hc.lt_of_lt_of_le hxb hba.le
        simp [insertAfter, hax, hxb, hab, hxa]
    · by_cases hab : compare a b ≤ 0
      · have hxa : ¬ compare x a < 0 := fun h => hxb (hc.lt_of_lt_of_le h hab)
        simp [insertAfter, hxb, hab, hxa]
      · simp [insertAfter, hxb, hab, ih]

/-- One more element at the end of the input goes behind its equals in the sorted output. -/
theorem stableSort_concat (l : List α) (x : α) :
    stableSort compare (l ++ [x]) = insertAfter compare x (stableSort compare l) := by
  induction l with
  | nil => rfl
  | cons a l ih =>
    change List.orderedInsert _ a (stableSort compare (l ++ [x])) = _
    rw [ih, orderedInsert_insertAfter hc]
    rfl

theorem foldl_insertAfter (l : List α) :
    l.foldl (fun sorted x => insertAfter compare x sorted) [] = stableSort compare l := by
  induction l using List.reverseRecOn with
  | nil => rfl
  | append_singleton l x ih => rw [List.foldl_append, ih, stableSort_concat hc]; rfl

theorem stableSort_ordered (l : List α) : Ordered compare (stableSort compare l) := by
  induction l using List.reverseRecOn with
  | nil => exact List.Pairwise.nil
  | append_singleton l x ih =>
    rw [stableSort_concat hc]
    exact ih.insertAfter hc x

end Preorder

theorem mem_stableSort {x : α} {l : List α} : x ∈ stableSort compare l ↔ x ∈ l :=
  List.mem_insertionSort _

theorem mem_of_mem_keepFirst {x : α} {l : List α} (h : x ∈ keepFirst compare l) : x ∈ l := by
  induction l with
  | nil => exact h
  | cons a l ih =>
    rcases List.mem_cons.mp h with rfl | h
    · simp
    · exact List.mem_cons_of_mem a (ih (List.mem_of_mem_filter h))

section Preorder

variable (hc : TotalPreorder compare)
include hc

theorem exists_mem_keepFirst {x : α} {l : List α} :
    (∃ e ∈ keepFirst compare l, compare x e = 0) ↔ ∃ e ∈ l, compare x e = 0 := by
  constructor
  · rintro ⟨e, he, hx⟩
    exact ⟨e, mem_of_mem_keepFirst he, hx⟩
  · induction l with
    | nil => simp
    | cons a l ih =>
      rintro ⟨e, he, hx⟩
      by_cases ha : compare x a = 0
      · exact ⟨a, by simp [keepFirst], ha⟩
      · have hel : e ∈ l := by
          rcases List.mem_cons.mp he with rfl | he
          · exact absurd hx ha
          · exact he
        obtain ⟨f, hf, hxf⟩ := ih ⟨e, hel, hx⟩
        refine ⟨f, ?_, hxf⟩
        have haf : compare a f ≠ 0 := fun h => ha (hc.eq_trans hxf (hc.eq_comm h))
        simp [keepFirst, hf, haf]

theorem filter_insertAfter (p : α → Bool) (x : α) {l : List α} (hl : Ordered compare l) :
    (insertAfter compare x l).filter p =
      if p x then insertAfter compare x (l.filter p) else l.filter p := by
  induction l with
  | nil => by_cases hp : p x <;> simp [insertAfter, hp]
  | cons a l ih =>
    obtain ⟨ha, hl'⟩ := List.pairwise_cons.mp hl
    by_cases hxa : compare x a < 0
    · have hall : ∀ b ∈ (a :: l).filter p, compare x b < 0 := by
        intro b hb
        rcases List.mem_cons.mp (List.mem_of_mem_filter hb) with rfl | hb
        · exact hxa
        · exact hc.lt_of_lt_of_le hxa (ha b hb)
      rw [insertAfter_eq_cons hall, insertAfter, if_pos hxa, List.filter_cons]
    · rw [insertAfter, if_neg hxa, List.filter_cons, List.filter_cons, ih hl']
      by_cases hpa : p a <;> by_cases hpx : p x <;> simp [hpa, hpx, insertAfter, hxa]

/-- Elements that compare equal stay in the order they had. -/
theorem filter_stableSort {p : α → Bool} (hp : ∀ a b, p a → p b → compare a b = 0) (l : List α) :
    (stableSort compare l).filter p = l.filter p := by
  induction l using List.reverseRecOn with
  | nil => rfl
  | append_singleton l x ih =>
    rw [stableSort_concat hc, filter_insertAfter hc p x (stableSort_ordered hc l), ih,
      List.filter_append, List.filter_singleton]
    by_cases hx : p x
    · have hlast : ∀ b ∈ l.filter p, ¬ compare x b < 0 := by
        intro b hb
        have heq := hp x b hx (List.mem_filter.mp hb).2
        omega
      simp [hx, insertAfter_eq_concat hlast]
    · simp [hx]

/-- Sorting a new element in and keeping first elements is inserting it when absent. -/
theorem keepFirst_insertAfter (x : α) {l : List α} (hl : Ordered compare l) :
    keepFirst compare (insertAfter compare x l) = insertAbsent compare x (keepFirst compare l) := by
  have hkeep : ∀ l' : List α, Ordered compare l' → Ordered compare (keepFirst compare l') := by
    intro l' hl'
    induction l' with
    | nil => exact hl'
    | cons a l' ih =>
      obtain ⟨ha, ht⟩ := List.pairwise_cons.mp hl'
      refine List.pairwise_cons.mpr ⟨?_, (ih ht).filter _⟩
      exact fun b hb => ha b (mem_of_mem_keepFirst (List.mem_of_mem_filter hb))
  induction l with
  | nil => simp [insertAfter, keepFirst, insertAbsent]
  | cons a l ih =>
    obtain ⟨ha, hl'⟩ := List.pairwise_cons.mp hl
    by_cases hxa : compare x a < 0
    · -- the new element precedes everything, so nothing equals it
      have hall : ∀ b ∈ keepFirst compare (a :: l), compare x b < 0 := by
        intro b hb
        rcases List.mem_cons.mp (mem_of_mem_keepFirst hb) with rfl | hb
        · exact hxa
        · exact hc.lt_of_lt_of_le hxa (ha b hb)
      have hnone : ¬ ∃ e ∈ keepFirst compare (a :: l), compare x e = 0 := by
        rintro ⟨e, he, h0⟩
        have := hall e he
        omega
      rw [insertAbsent, if_neg hnone, insertAfter_eq_cons hall, insertAfter, if_pos hxa]
      change x :: (keepFirst compare (a :: l)).filter _ = _
      rw [List.filter_eq_self.mpr (fun b hb => by simpa using (hall b hb).ne)]
    · have hrec := ih hl'
      rw [insertAfter, if_neg hxa, keepFirst, hrec]
      by_cases hxa0 : compare x a = 0
      · -- equal to the head: the filter drops it again
        have hax0 := hc.eq_comm hxa0
        have hhead : ∃ e ∈ keepFirst compare (a :: l), compare x e = 0 :=
          ⟨a, by simp [keepFirst], hxa0⟩
        rw [insertAbsent, insertAbsent, if_pos hhead, keepFirst]
        split_ifs with h
        · rfl
        · rw [filter_insertAfter hc _ x (hkeep l hl')]
          simp [hax0]
      · have hax0 : compare a x ≠ 0 := fun h => hxa0 (hc.eq_comm h)
        have hiff : (∃ e ∈ keepFirst compare (a :: l), compare x e = 0) ↔
            ∃ e ∈ keepFirst compare l, compare x e = 0 := by
          rw [exists_mem_keepFirst hc, exists_mem_keepFirst hc]
          simp [hxa0]
        simp only [insertAbsent, hiff]
        split_ifs with h
        · rfl
        · rw [filter_insertAfter hc _ x (hkeep l hl')]
          simp [keepFirst, insertAfter, hxa, hax0]

end Preorder

end MorningProjects.Library
