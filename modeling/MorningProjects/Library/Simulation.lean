import MorningProjects.Library.Runs

/-!
# Runs with answers, and what they answer for

A call of an implementation changes its state and answers, or has no result. A
specification is a total function of a state of its own. If a relation between
the two states is kept by every call, and the answers are the same, then whole
runs give the same answers; the relation may get weaker with each call, as long
as a bound on their number allows.
-/
namespace MorningProjects.Library

variable {σ τ ι ω : Type*}

/-- The state that the calls of a run lead to, and their answers. -/
def answersFrom (step : σ → ι → Option (σ × ω)) : σ → List ι → Option (σ × List ω)
  | s, [] => some (s, [])
  | s, i :: is =>
    (step s i).bind fun (t, answer) =>
      (answersFrom step t is).map fun (u, answers) => (u, answer :: answers)

def specified (spec : τ → ι → τ × ω) : τ → List ι → τ × List ω
  | t, [] => (t, [])
  | t, i :: is =>
    let (u, answer) := spec t i
    let (v, answers) := specified spec u is
    (v, answer :: answers)

/-- The change that a call makes. -/
def changes (step : σ → ι → Option (σ × ω)) (s : σ) (i : ι) : Option σ :=
  (step s i).map Prod.fst

/-- Runs of an implementation whose calls meet their conditions go on to the end, and answer and
change the state as specified. -/
theorem answersFrom_specified {step : σ → ι → Option (σ × ω)} {spec : τ → ι → τ × ω}
    {R : ℕ → σ → τ → Prop} {P : σ → ι → Prop} {bound : ℕ}
    (hstep : ∀ n s t i, n < bound → R n s t → P s i →
      ∃ s', step s i = some (s', (spec t i).2) ∧ R (n + 1) s' (spec t i).1)
    {n : ℕ} {s : σ} {t : τ} {is : List ι} (hn : n + is.length ≤ bound) (hrel : R n s t)
    (hP : Along (changes step) P s is) :
    ∃ s', answersFrom step s is = some (s', (specified spec t is).2) ∧
      R (n + is.length) s' (specified spec t is).1 := by
  induction is generalizing n s t with
  | nil => exact ⟨s, rfl, hrel⟩
  | cons i is ih =>
    rw [List.length_cons] at hn
    obtain ⟨s', hs', hrel'⟩ := hstep n s t i (by omega) hrel hP.1
    have hchange : changes step s i = some s' := by rw [changes, hs', Option.map_some]
    obtain ⟨s'', hs'', hrel''⟩ := ih (by omega) hrel' (hP.2 s' hchange)
    refine ⟨s'', ?_, ?_⟩
    · rw [answersFrom, hs', Option.bind_some]
      dsimp only
      rw [hs'', Option.map_some]
      rfl
    · rw [List.length_cons, ← Nat.add_assoc, Nat.add_right_comm]
      exact hrel''

/-- Runs of an implementation and of a specification that may both fail answer the same, and fail
together, if each call does. -/
theorem answersFrom_agree {step : σ → ι → Option (σ × ω)} {spec : τ → ι → Option (τ × ω)}
    {R : ℕ → σ → τ → Prop} {P : σ → ι → Prop} {bound : ℕ}
    (hstep : ∀ n s t i, n < bound → R n s t → P s i →
      Option.Rel (fun x y => R (n + 1) x.1 y.1 ∧ x.2 = y.2) (step s i) (spec t i))
    {n : ℕ} {s : σ} {t : τ} {is : List ι} (hn : n + is.length ≤ bound) (hrel : R n s t)
    (hP : Along (changes step) P s is) :
    (answersFrom step s is).map Prod.snd = (answersFrom spec t is).map Prod.snd := by
  induction is generalizing n s t with
  | nil => rfl
  | cons i is ih =>
    rw [List.length_cons] at hn
    have hcall := hstep n s t i (by omega) hrel hP.1
    rw [answersFrom, answersFrom]
    cases hs : step s i with
    | none =>
      rw [hs] at hcall
      cases ht : spec t i with
      | none => rfl
      | some y =>
        rw [ht] at hcall
        cases hcall
    | some x =>
      rw [hs] at hcall
      cases ht : spec t i with
      | none =>
        rw [ht] at hcall
        cases hcall
      | some y =>
        rw [ht] at hcall
        cases hcall with
        | some h =>
          have hchange : changes step s i = some x.1 := by rw [changes, hs, Option.map_some]
          have hrest := ih (by omega) h.1 (hP.2 x.1 hchange)
          simp only [Option.bind_some, Option.map_map]
          rw [h.2]
          change ((answersFrom step x.1 is).map fun r => y.2 :: r.2) =
            (answersFrom spec y.1 is).map fun r => y.2 :: r.2
          have hcons := congrArg (Option.map (y.2 :: ·)) hrest
          simpa [Option.map_map, Function.comp_def] using hcons

end MorningProjects.Library
