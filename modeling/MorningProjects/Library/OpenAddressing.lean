import Mathlib.Logic.Function.Basic
import Mathlib.Tactic

/-!
# Open addressing with tombstones

Every key has a probe path through the cells. A search walks along the path of
its key until it meets the key or an empty cell; vacated cells do not stop it.
The invariant is that a live key is met on its own path before any empty cell
and before the cut-off.
-/
namespace MorningProjects.Library

inductive Cell (K V : Type*) where
  | empty
  | vacated
  | live (key : K) (value : V)
  deriving DecidableEq, Repr

variable {I K V : Type*} (path : K → ℕ → I) (same : K → K → Prop) (limit : ℕ)
  (cells : I → Cell K V)

def Passes (key : K) (c : Cell K V) : Prop :=
  c ≠ .empty ∧ ∀ k v, c = .live k v → ¬ same k key

/-- The cell a search ends with, if any, and the number of probes it took. -/
inductive Search (key : K) : Option I → ℕ → Prop where
  | duplicated {n : ℕ} {k : K} {v : V} (hn : n ≤ limit)
      (hpass : ∀ m < n, Passes same key (cells (path key m)))
      (hfound : cells (path key n) = .live k v) (hsame : same k key) :
      Search key (some (path key n)) n
  | available {n : ℕ} {i : I} (hn : n ≤ limit)
      (hpass : ∀ m < n, Passes same key (cells (path key m)))
      (hend : cells (path key n) = .empty)
      (hcell : i = path key n ∨ ∃ m < n, path key m = i ∧ cells i = .vacated) :
      Search key (some i) n
  | exhausted (hpass : ∀ m ≤ limit, Passes same key (cells (path key m))) :
      Search key none limit

/-- Live keys are pairwise different, and each is reached along its path. -/
structure Reached : Prop where
  unique : ∀ {i j k v k' v'}, cells i = .live k v → cells j = .live k' v' → same k k' → i = j
  reach : ∀ {i k v}, cells i = .live k v →
    ∃ n < limit, path k n = i ∧ ∀ m < n, cells (path k m) ≠ .empty

/-- Keys that count as the same have the same probe path. -/
structure KeyClasses : Prop where
  symm : ∀ {a b}, same a b → same b a
  trans : ∀ {a b c}, same a b → same b c → same a c
  path : ∀ {a b}, same a b → path a = path b

def Holds (key : K) (v : V) : Prop :=
  ∃ i k, cells i = .live k v ∧ same k key

variable {path same limit cells}

theorem passes_vacated (key : K) : Passes same key (.vacated : Cell K V) := by
  constructor
  · simp
  · intro k v hlive
    cases hlive

theorem passes_live {key k : K} {v : V} : Passes same key (.live k v) ↔ ¬ same k key := by
  constructor
  · intro hp
    exact hp.2 k v rfl
  · intro hne
    constructor
    · simp
    · rintro k' v' ⟨⟩
      exact hne

theorem reached_empty : Reached path same limit (fun _ => (.empty : Cell K V)) := by
  constructor
  · intro i j k v k' v' h
    cases h
  · intro i k v h
    cases h

section Operations

variable (hkeys : KeyClasses path same)
include hkeys

/-- Searching for a live key ends at its cell before the cut-off. -/
theorem Reached.search_live (h : Reached path same limit cells) {key k : K} {v : V} {i : I}
    (hi : cells i = .live k v) (hk : same k key) {r : Option I} {n : ℕ}
    (hs : Search path same limit cells key r n) : r = some i ∧ n < limit := by
  obtain ⟨m, hm, hmi, hreach⟩ := h.reach hi
  rw [hkeys.path hk] at hmi hreach
  -- a search that walks past the live cell contradicts `Passes`
  have hnot : ¬ Passes same key (cells (path key m)) := by
    intro hp
    rw [hmi, hi] at hp
    exact passes_live.mp hp hk
  cases hs with
  | duplicated hn hpass hfound hsame =>
    have hle : n ≤ m := by
      by_contra hlt
      exact hnot (hpass m (by omega))
    constructor
    · rw [h.unique hfound hi (hkeys.trans hsame (hkeys.symm hk))]
    · omega
  | available hn hpass hend hcell =>
    exfalso
    rcases lt_trichotomy n m with hlt | rfl | hgt
    · exact hreach n hlt hend
    · rw [hmi, hi] at hend
      cases hend
    · exact hnot (hpass m hgt)
  | exhausted hpass => exact (hnot (hpass m hm.le)).elim

omit hkeys in
theorem Search.reach {key : K} {i : I} {n : ℕ}
    (hs : Search path same limit cells key (some i) n) :
    ∃ m ≤ n, path key m = i ∧ ∀ l < m, cells (path key l) ≠ .empty := by
  cases hs with
  | duplicated hn hpass hfound hsame =>
    exact ⟨n, le_rfl, rfl, fun l hl => (hpass l hl).1⟩
  | available hn hpass hend hcell =>
    rcases hcell with rfl | ⟨m, hm, hmi, -⟩
    · exact ⟨n, le_rfl, rfl, fun l hl => (hpass l hl).1⟩
    · exact ⟨m, hm.le, hmi, fun l hl => (hpass l (by omega)).1⟩

omit hkeys in
theorem Search.cell {key : K} {i : I} {n : ℕ} (hs : Search path same limit cells key (some i) n) :
    (∃ k v, cells i = .live k v ∧ same k key) ∨ cells i = .empty ∨ cells i = .vacated := by
  cases hs with
  | duplicated hn hpass hfound hsame => exact .inl ⟨_, _, hfound, hsame⟩
  | available hn hpass hend hcell =>
    rcases hcell with rfl | ⟨m, -, -, hvac⟩
    · exact .inr (.inl hend)
    · exact .inr (.inr hvac)

omit hkeys in
theorem Search.le {key : K} {r : Option I} {n : ℕ}
    (hs : Search path same limit cells key r n) : n ≤ limit := by
  cases hs <;> first | assumption | exact le_rfl

variable [DecidableEq I]

theorem Reached.store (h : Reached path same limit cells) {key : K} {i : I} {n : ℕ}
    (hs : Search path same limit cells key (some i) n) (hn : n < limit) (v : V) :
    Reached path same limit (Function.update cells i (.live key v)) := by
  have honly : ∀ {j k w}, cells j = .live k w → same k key → j = i := by
    intro j k w hj hk
    have hi := (h.search_live hkeys hj hk hs).1
    exact (Option.some.inj hi).symm
  have hnonempty : ∀ j, cells j ≠ .empty → Function.update cells i (.live key v) j ≠ .empty := by
    intro j hj
    by_cases hji : j = i
    · simp [hji]
    · simpa [hji] using hj
  constructor
  · intro j l k w k' w' hj hl hkk'
    by_cases hji : j = i <;> by_cases hli : l = i
    · rw [hji, hli]
    · rw [hji, Function.update_self] at hj
      rw [Function.update_of_ne hli] at hl
      cases hj
      exact hji.trans (honly hl (hkeys.symm hkk')).symm
    · rw [hli, Function.update_self] at hl
      rw [Function.update_of_ne hji] at hj
      cases hl
      exact (honly hj hkk').trans hli.symm
    · rw [Function.update_of_ne hji] at hj
      rw [Function.update_of_ne hli] at hl
      exact h.unique hj hl hkk'
  · intro j k w hj
    by_cases hji : j = i
    · rw [hji, Function.update_self] at hj
      cases hj
      obtain ⟨m, hm, hmi, hreach⟩ := hs.reach
      exact ⟨m, by omega, hmi.trans hji.symm, fun l hl => hnonempty _ (hreach l hl)⟩
    · rw [Function.update_of_ne hji] at hj
      obtain ⟨m, hm, hmj, hreach⟩ := h.reach hj
      exact ⟨m, hm, hmj, fun l hl => hnonempty _ (hreach l hl)⟩

omit hkeys in
/-- Vacating a cell keeps the invariant: it does not become empty. -/
theorem Reached.vacate (h : Reached path same limit cells) (i : I) :
    Reached path same limit (Function.update cells i .vacated) := by
  have hlive : ∀ {j k w}, Function.update cells i .vacated j = .live k w →
      cells j = .live k w := by
    intro j k w hj
    by_cases hji : j = i
    · rw [hji, Function.update_self] at hj
      cases hj
    · rwa [Function.update_of_ne hji] at hj
  constructor
  · intro j l k w k' w' hj hl
    exact h.unique (hlive hj) (hlive hl)
  · intro j k w hj
    obtain ⟨m, hm, hmj, hreach⟩ := h.reach (hlive hj)
    refine ⟨m, hm, hmj, fun l hl => ?_⟩
    by_cases hli : path k l = i
    · simp [hli]
    · simpa [hli] using hreach l hl

omit hkeys in
theorem holds_store (same : K → K → Prop) (i : I) {key k : K} (hk : same key k) (v : V) :
    Holds same (Function.update cells i (.live key v)) k v :=
  ⟨i, key, by simp, hk⟩

theorem Holds.store {key k : K} {w : V} (hw : Holds same cells k w) (hk : ¬ same key k) {i : I}
    {n : ℕ} (hs : Search path same limit cells key (some i) n) (v : V) :
    Holds same (Function.update cells i (.live key v)) k w := by
  obtain ⟨j, k', hj, hk'⟩ := hw
  have hji : j ≠ i := by
    rintro rfl
    cases hs with
    | duplicated hn hpass hfound hsame =>
      rw [hj] at hfound
      cases hfound
      exact hk (hkeys.trans (hkeys.symm hsame) hk')
    | available hn hpass hend hcell =>
      rcases hcell with rfl | ⟨m, -, -, hvac⟩
      · rw [hj] at hend
        cases hend
      · rw [hj] at hvac
        cases hvac
  exact ⟨j, k', by rwa [Function.update_of_ne hji], hk'⟩

theorem Holds.vacate {key k k₀ : K} {w v : V} (hw : Holds same cells k w) (hk : ¬ same key k)
    {i : I} (hi : cells i = .live k₀ v) (hk₀ : same k₀ key) :
    Holds same (Function.update cells i .vacated) k w := by
  obtain ⟨j, k', hj, hk'⟩ := hw
  have hji : j ≠ i := by
    rintro rfl
    rw [hj] at hi
    cases hi
    exact hk (hkeys.trans (hkeys.symm hk₀) hk')
  exact ⟨j, k', by rwa [Function.update_of_ne hji], hk'⟩

end Operations

end MorningProjects.Library
