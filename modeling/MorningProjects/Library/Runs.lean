import Mathlib.Tactic

/-!
# Runs of a partial step function

A step that has no result (a crash, a call that does not return) ends the run.
Conditions on the single steps of a run are collected by `Along`; an invariant
kept by every step that meets its condition holds wherever the run arrives.
-/
namespace MorningProjects.Library

variable {σ ι : Type*} (step : σ → ι → Option σ)

/-- The state a run arrives at, if all its steps have a result. -/
def runFrom : σ → List ι → Option σ
  | s, [] => some s
  | s, i :: is => (step s i).bind fun s' => runFrom s' is

/-- Every step taken on the way meets a condition on it and the state before it. -/
def Along (P : σ → ι → Prop) : σ → List ι → Prop
  | _, [] => True
  | s, i :: is => P s i ∧ ∀ s', step s i = some s' → Along P s' is

/-- A condition that can be decided at every step can be decided along a run. -/
instance decidableAlong (P : σ → ι → Prop) [∀ s i, Decidable (P s i)] :
    (s : σ) → (is : List ι) → Decidable (Along step P s is)
  | _, [] => isTrue trivial
  | s, i :: is =>
    have : Decidable (∀ s', step s i = some s' → Along step P s' is) :=
      match step s i with
      | none => isTrue fun _ h => absurd h.symm (Option.some_ne_none _)
      | some t =>
        have := decidableAlong P t is
        decidable_of_iff (Along step P t is)
          ⟨fun h _ ht => Option.some.inj ht ▸ h, fun h => h t rfl⟩
    inferInstanceAs (Decidable (P s i ∧ _))

def peakAlong (measure : σ → ℕ) : σ → List ι → ℕ
  | s, [] => measure s
  | s, i :: is => max (measure s) ((step s i).elim 0 fun s' => peakAlong measure s' is)

variable {step} {Inv : σ → Prop} {P Q : σ → ι → Prop}

theorem runFrom_cons {s s' : σ} {i : ι} {is : List ι} (h : step s i = some s') :
    runFrom step s (i :: is) = runFrom step s' is := by
  rw [runFrom, h, Option.bind_some]

theorem along_of_forall (hP : ∀ s i, P s i) (s : σ) (is : List ι) : Along step P s is := by
  induction is generalizing s with
  | nil => trivial
  | cons i is ih => exact ⟨hP s i, fun s' _ => ih s'⟩

theorem Along.mono (hPQ : ∀ s i, P s i → Q s i) {s : σ} {is : List ι} (h : Along step P s is) :
    Along step Q s is := by
  induction is generalizing s with
  | nil => trivial
  | cons i is ih => exact ⟨hPQ s i h.1, fun s' hs' => ih (h.2 s' hs')⟩

theorem along_and {s : σ} {is : List ι} :
    Along step (fun s i => P s i ∧ Q s i) s is ↔ Along step P s is ∧ Along step Q s is := by
  constructor
  · intro h
    exact ⟨h.mono fun _ _ hPQ => hPQ.1, h.mono fun _ _ hPQ => hPQ.2⟩
  · rintro ⟨hP, hQ⟩
    induction is generalizing s with
    | nil => trivial
    | cons i is ih => exact ⟨⟨hP.1, hQ.1⟩, fun s' hs' => ih (hP.2 s' hs') (hQ.2 s' hs')⟩

theorem along_of_forall_mem {R : ι → Prop} {is : List ι} (hR : ∀ i ∈ is, R i) (s : σ) :
    Along step (fun _ i => R i) s is := by
  induction is generalizing s with
  | nil => trivial
  | cons i is ih =>
    obtain ⟨hi, his⟩ := List.forall_mem_cons.mp hR
    exact ⟨hi, fun s' _ => ih his s'⟩

theorem runFrom_congr {step' : σ → ι → Option σ} (h : ∀ s i, P s i → step s i = step' s i)
    {s : σ} {is : List ι} (hP : Along step P s is) : runFrom step s is = runFrom step' s is := by
  induction is generalizing s with
  | nil => rfl
  | cons i is ih =>
    rw [runFrom, runFrom, ← h s i hP.1]
    cases hi : step s i with
    | none => rfl
    | some t => exact ih (hP.2 t hi)

section Invariant

variable (hstep : ∀ s i s', Inv s → P s i → step s i = some s' → Inv s')
include hstep

/-- The invariant holds at the end of every run whose steps meet their condition. -/
theorem runFrom_invariant {s s' : σ} {is : List ι} (hs : Inv s) (hP : Along step P s is)
    (hrun : runFrom step s is = some s') : Inv s' := by
  induction is generalizing s with
  | nil => exact Option.some.inj hrun ▸ hs
  | cons i is ih =>
    obtain ⟨t, ht, hrun⟩ := Option.bind_eq_some_iff.mp hrun
    exact ih (hstep s i t hs hP.1 ht) (hP.2 t ht) hrun

/-- What the invariant says about one step holds of every step of the run. -/
theorem along_of_invariant (hQ : ∀ s i, Inv s → P s i → Q s i) {s : σ} {is : List ι}
    (hs : Inv s) (hP : Along step P s is) : Along step Q s is := by
  induction is generalizing s with
  | nil => trivial
  | cons i is ih =>
    exact ⟨hQ s i hs hP.1, fun s' h => ih (hstep s i s' hs hP.1 h) (hP.2 s' h)⟩

/-- Two conditions that say the same where the invariant holds say the same of a run. -/
theorem along_iff_of_invariant (hPQ : ∀ s i, Inv s → (P s i ↔ Q s i)) {s : σ} {is : List ι}
    (hs : Inv s) : Along step P s is ↔ Along step Q s is := by
  induction is generalizing s with
  | nil => exact Iff.rfl
  | cons i is ih =>
    rw [Along, Along, hPQ s i hs]
    apply and_congr_right
    intro hQ
    apply forall₂_congr
    intro s' h
    exact ih (hstep s i s' hs ((hPQ s i hs).mpr hQ) h)

end Invariant

theorem runFrom_invariant_of_step (hstep : ∀ s i s', Inv s → step s i = some s' → Inv s')
    {s s' : σ} {is : List ι} (hs : Inv s) (hrun : runFrom step s is = some s') : Inv s' := by
  apply runFrom_invariant (P := fun _ _ => True) _ hs
    (along_of_forall (fun _ _ => trivial) s is) hrun
  intro s i s' hs _
  exact hstep s i s' hs

/-- A measure that every step lowers by what the step costs. -/
theorem runFrom_spends {measure : σ → ℕ} {cost : ι → ℕ}
    (hstep : ∀ s i s', Inv s → step s i = some s' → Inv s' ∧ measure s' + cost i = measure s)
    {s s' : σ} {is : List ι} (hs : Inv s) (hrun : runFrom step s is = some s') :
    Inv s' ∧ measure s' + (is.map cost).sum = measure s := by
  induction is generalizing s with
  | nil =>
    obtain rfl := Option.some.inj hrun
    exact ⟨hs, rfl⟩
  | cons i is ih =>
    obtain ⟨t, ht, hrun⟩ := Option.bind_eq_some_iff.mp hrun
    obtain ⟨hinv, hspent⟩ := hstep s i t hs ht
    obtain ⟨hend, hrest⟩ := ih hinv hrun
    refine ⟨hend, ?_⟩
    rw [List.map_cons, List.sum_cons, ← hspent, ← hrest]
    omega

/-- A run whose invariant may weaken with every step, as long as a bound allows. -/
theorem exists_runFrom_counted {Count : ℕ → σ → Prop} {bound : ℕ}
    (hstep : ∀ n s i, n < bound → Count n s → P s i → ∃ s', step s i = some s' ∧ Count (n + 1) s')
    {n : ℕ} {s : σ} {is : List ι} (hn : n + is.length ≤ bound) (hs : Count n s)
    (hP : Along step P s is) :
    ∃ s', runFrom step s is = some s' ∧ Count (n + is.length) s' := by
  induction is generalizing n s with
  | nil => exact ⟨s, rfl, hs⟩
  | cons i is ih =>
    rw [List.length_cons] at hn
    obtain ⟨t, ht, hcount⟩ := hstep n s i (by omega) hs hP.1
    obtain ⟨s', hs', hend⟩ := ih (by omega) hcount (hP.2 t ht)
    refine ⟨s', by rw [runFrom_cons ht, hs'], ?_⟩
    rw [List.length_cons, ← Nat.add_assoc, Nat.add_right_comm]
    exact hend

theorem runFrom_counted {Count : ℕ → σ → Prop} {bound : ℕ}
    (hstep : ∀ n s i s', n < bound → Count n s → P s i → step s i = some s' → Count (n + 1) s')
    {n : ℕ} {s s' : σ} {is : List ι} (hn : n + is.length ≤ bound) (hs : Count n s)
    (hP : Along step P s is) (hrun : runFrom step s is = some s') : Count (n + is.length) s' := by
  induction is generalizing n s with
  | nil => exact Option.some.inj hrun ▸ hs
  | cons i is ih =>
    rw [List.length_cons] at hn
    obtain ⟨t, ht, hrun⟩ := Option.bind_eq_some_iff.mp hrun
    have hend := ih (by omega) (hstep n s i t (by omega) hs hP.1 ht) (hP.2 t ht) hrun
    rw [List.length_cons, ← Nat.add_assoc, Nat.add_right_comm]
    exact hend

theorem along_iff_of_counted {R : σ → ι → Prop} {Count : ℕ → σ → Prop} {bound : ℕ}
    (hPQ : ∀ n s i, n < bound → Count n s → R s i → (P s i ↔ Q s i))
    (hstep : ∀ n s i s', n < bound → Count n s → R s i → Q s i → step s i = some s' →
      Count (n + 1) s')
    {n : ℕ} {s : σ} {is : List ι} (hn : n + is.length ≤ bound) (hs : Count n s)
    (hR : Along step R s is) : Along step P s is ↔ Along step Q s is := by
  induction is generalizing n s with
  | nil => exact Iff.rfl
  | cons i is ih =>
    rw [List.length_cons] at hn
    obtain ⟨hi, hrest⟩ := hR
    rw [Along, Along, hPQ n s i (by omega) hs hi]
    apply and_congr_right
    intro hQ
    apply forall₂_congr
    intro s' h
    exact ih (by omega) (hstep n s i s' (by omega) hs hi hQ h) (hrest s' h)

/-- Two conditions that say the same of the permitted steps say the same of a run, when steps that
meet them keep the invariant. -/
theorem along_iff_of_permitted {R : σ → ι → Prop}
    (hPQ : ∀ s i, Inv s → R s i → (P s i ↔ Q s i))
    (hstep : ∀ s i s', Inv s → R s i → Q s i → step s i = some s' → Inv s') {s : σ} {is : List ι}
    (hs : Inv s) (hR : Along step R s is) : Along step P s is ↔ Along step Q s is :=
  along_iff_of_counted (fun _ s i _ => hPQ s i) (fun _ s i s' _ => hstep s i s')
    (Nat.zero_add is.length).le hs hR

/-- What is known of a state and of the largest value of a measure before it. -/
theorem runFrom_peak {Kept : ℕ → σ → Prop} {measure : σ → ℕ}
    (hstep : ∀ m s i s', Kept m s → P s i → step s i = some s' → Kept (max m (measure s')) s')
    {s s' : σ} {is : List ι} (hs : Kept (measure s) s) (hP : Along step P s is)
    (hrun : runFrom step s is = some s') : Kept (peakAlong step measure s is) s' := by
  have hgeneral : ∀ (is : List ι) (s : σ) (m : ℕ), Kept (max m (measure s)) s →
      Along step P s is → runFrom step s is = some s' →
        Kept (max m (peakAlong step measure s is)) s' := by
    intro is
    induction is with
    | nil =>
      intro s m hs _ hrun
      exact Option.some.inj hrun ▸ hs
    | cons i is ih =>
      intro s m hs hP hrun
      obtain ⟨t, ht, hrun⟩ := Option.bind_eq_some_iff.mp hrun
      rw [peakAlong, ht, Option.elim_some, ← max_assoc]
      exact ih t _ (hstep _ s i t hs hP.1 ht) (hP.2 t ht) hrun
  simpa using hgeneral is s 0 (by simpa using hs) hP hrun

end MorningProjects.Library
