import MorningProjects.Gopiggy.Clock

/-!
# The final standing

Behind the last round `rank_piggy_final` orders the pigs by `time_period`, which every pig
took when it reached the end of the track. A second passes between two rounds, so this is
the order in which the pigs came home: by round, and within a round by number.
-/
namespace MorningProjects.Gopiggy

/-- The clock never goes back, and it moves on between two rounds. -/
structure Paced (numPigs : ℕ) (rounds : ℕ → Round) : Prop where
  now_le : ∀ k, ∀ i < numPigs, (rounds k).now ≤ ((rounds k).readings i).time
  readings_le : ∀ k i j, i ≤ j → ((rounds k).readings i).time ≤ ((rounds k).readings j).time
  sleep : ∀ k, ∀ i < numPigs, ((rounds k).readings i).time < (rounds (k + 1)).now

def FinishedIn (rands : ℕ → ℕ) (start numPigs : ℕ) (rounds : ℕ → Round) (i k : ℕ) : Prop :=
  ∃ s s', raceAfter rands start numPigs rounds k = some s ∧
    raceAfter rands start numPigs rounds (k + 1) = some s' ∧
    Ranking.position s.pigs i ≠ trackLength ∧ Ranking.position s'.pigs i = trackLength

def EarlierHome (rands : ℕ → ℕ) (start numPigs : ℕ) (rounds : ℕ → Round) (i j : ℕ) : Prop :=
  ∃ k k', FinishedIn rands start numPigs rounds i k ∧
    FinishedIn rands start numPigs rounds j k' ∧ (k < k' ∨ k = k' ∧ i < j)

/-! ### A round -/

inductive Piggy.Ran (draw : Draw) (p p' : Piggy) : Prop where
  | running (hp : p.currentPosition ≠ trackLength) (hp' : p'.currentPosition ≠ trackLength)
  | finishes (hp : p.currentPosition ≠ trackLength) (hp' : p'.currentPosition = trackLength)
      (htime : p'.timePeriod = draw.elapsed + 1)
  | rests (hp : p.currentPosition = trackLength) (hp' : p'.currentPosition = trackLength)
      (htime : p'.timePeriod = p.timePeriod)

section Lap

variable {rands : ℕ → ℕ} {indexAppleCatcher timeInterval : ℤ} {l l' : Lap}

theorem finishedPigs_singleton (p : Piggy) :
    finishedPigs [p] = if p.currentPosition = trackLength then 1 else 0 := by
  simp [finishedPigs, List.countP_singleton]

theorem runPiggy_ran {i : ℕ} {draw : Draw} {p p' : Piggy}
    (hrun : runPiggy rands indexAppleCatcher timeInterval i draw l p = some (p', l')) :
    p.Ran draw p' ∧
      l'.numPiggyFinished + finishedPigs [p] = l.numPiggyFinished + finishedPigs [p'] := by
  have hnum := (chooseSpeed_spec rands indexAppleCatcher i draw.rand l).2
  rw [finishedPigs_singleton, finishedPigs_singleton]
  rw [runPiggy] at hrun
  dsimp only at hrun
  split_ifs at hrun with hrunning hend
  · cases hrun
    refine ⟨.finishes (Ne.symm hrunning) rfl rfl, ?_⟩
    rw [if_neg (Ne.symm hrunning), if_pos rfl]
    exact congrArg (· + 1) hnum
  · cases hrun
    have hne : p.currentPosition + (chooseSpeed rands indexAppleCatcher i draw.rand l).1 ≠
        trackLength := (not_le.mp hend).ne
    refine ⟨.running (Ne.symm hrunning) hne, ?_⟩
    rw [if_neg (Ne.symm hrunning), if_neg hne, hnum]
  · cases hrun
    have hp := (not_not.mp hrunning).symm
    exact ⟨.rests hp hp rfl, rfl⟩
  · cases hrun
    have hp := (not_not.mp hrunning).symm
    exact ⟨.rests hp hp rfl, rfl⟩

theorem runPiggies_ran {draws : ℕ → Draw} {i : ℕ} {ps ps' : List Piggy}
    (hrun : runPiggies rands indexAppleCatcher timeInterval draws i ps l = some (ps', l')) :
    (∀ j < ps.length, (ps.getD j Piggy.zero).Ran (draws (i + j)) (ps'.getD j Piggy.zero)) ∧
      l'.numPiggyFinished + finishedPigs ps = l.numPiggyFinished + finishedPigs ps' := by
  induction ps generalizing i l ps' with
  | nil =>
    cases hrun
    exact ⟨fun j hj => absurd hj (Nat.not_lt_zero j), rfl⟩
  | cons p ps ih =>
    obtain ⟨⟨p', l1⟩, hp, hrun⟩ := Option.bind_eq_some_iff.mp hrun
    obtain ⟨⟨ps1, l2⟩, hps, heq⟩ := Option.map_eq_some_iff.mp hrun
    cases heq
    obtain ⟨hran, hcount⟩ := runPiggy_ran hp
    obtain ⟨hrans, hcounts⟩ := ih hps
    constructor
    · intro j hj
      cases j with
      | zero => exact hran
      | succ j =>
        have hnext := hrans j (Nat.lt_of_succ_lt_succ hj)
        rwa [Nat.add_right_comm] at hnext
    · rw [finishedPigs_cons p ps, finishedPigs_cons p' ps1]
      omega

end Lap

/-! ### The rounds -/

/-- The invariant behind `k` rounds: a pig at the end of the track has the time of the round in
which it came there. -/
structure Race.Timed (rands : ℕ → ℕ) (start numPigs : ℕ) (rounds : ℕ → Round) (k : ℕ)
    (s : Race) : Prop where
  length : s.pigs.length = numPigs
  counted : s.lap.numPiggyFinished = finishedPigs s.pigs
  timed : ∀ i < numPigs, Ranking.position s.pigs i = trackLength →
    ∃ f < k, FinishedIn rands start numPigs rounds i f ∧
      Ranking.finishTime s.pigs i = (((rounds f).readings i).draw start).elapsed + 1

section Rounds

variable {rands : ℕ → ℕ} {start numPigs k : ℕ} {rounds : ℕ → Round} {s : Race}

theorem Race.start_timed (rands : ℕ → ℕ) (start numPigs : ℕ) (rounds : ℕ → Round) :
    (Race.start numPigs).Timed rands start numPigs rounds 0 where
  length := List.length_replicate
  counted := by
    rw [Race.start, eq_comm, finishedPigs, List.countP_eq_zero]
    intro p hp
    rw [List.eq_of_mem_replicate hp]
    decide
  timed i hi hend := by
    rw [Race.start, Ranking.position, List.getD_eq_getElem?_getD, List.getElem?_replicate,
      if_pos hi] at hend
    exact absurd hend (by decide)

theorem Race.Timed.round {s' : Race} (h : s.Timed rands start numPigs rounds k)
    (hs : raceAfter rands start numPigs rounds k = some s)
    (hs' : raceAfter rands start numPigs rounds (k + 1) = some s')
    (hround : s.round rands start (rounds k) = some s') :
    s'.Timed rands start numPigs rounds (k + 1) := by
  obtain ⟨hlength, hcounted, htimed⟩ := h
  obtain ⟨⟨pigs, l⟩, hrun, rfl⟩ := Option.map_eq_some_iff.mp hround
  obtain ⟨hran, hcount⟩ := runPiggies_ran hrun
  refine ⟨?_, ?_, ?_⟩
  · rw [Race.reward_pigs]
    exact (runPiggies_length hrun).trans hlength
  · rw [Race.reward_pigs, Race.reward_numPiggyFinished]
    dsimp only
    omega
  · rw [Race.reward_pigs]
    intro i hi hend
    have hpig := hran i (hlength ▸ hi)
    rw [Nat.zero_add] at hpig
    cases hpig with
    | running _ hp' => exact absurd hend hp'
    | finishes hp hp' htime =>
      refine ⟨k, k.lt_succ_self, ⟨s, _, hs, hs', hp, ?_⟩, htime⟩
      rwa [Race.reward_pigs]
    | rests hp _ htime =>
      obtain ⟨f, hf, hfinished, hold⟩ := htimed i hi hp
      exact ⟨f, hf.trans k.lt_succ_self, hfinished, htime.trans hold⟩

theorem raceAfter_timed (hs : raceAfter rands start numPigs rounds k = some s) :
    s.Timed rands start numPigs rounds k := by
  induction k generalizing s with
  | zero =>
    cases hs
    exact Race.start_timed rands start numPigs rounds
  | succ k ih =>
    obtain ⟨t, ht, hround⟩ := Option.bind_eq_some_iff.mp hs
    split_ifs at hround with hgo
    exact (ih ht).round ht hs hround

theorem Race.Timed.finished (h : s.Timed rands start numPigs rounds k) (hgo : s.goesOn = false)
    {i : ℕ} (hi : i < numPigs) : Ranking.position s.pigs i = trackLength := by
  have hle : s.pigs.length ≤ finishedPigs s.pigs := by
    rw [← h.counted]
    exact not_lt.mp (of_decide_eq_false hgo)
  have hall := List.countP_eq_length.mp (le_antisymm List.countP_le_length hle)
  rw [← h.length] at hi
  rw [Ranking.position, List.getD_eq_getElem?_getD, List.getElem?_eq_getElem hi]
  exact of_decide_eq_true (hall _ (List.getElem_mem hi))

/-! ### The order of the times -/

theorem Paced.now_le_now (h : Paced numPigs rounds) (hnum : 0 < numPigs) {k k' : ℕ}
    (hk : k ≤ k') : (rounds k).now ≤ (rounds k').now := by
  induction hk with
  | refl => rfl
  | step _ ih => exact ih.trans ((h.now_le _ 0 hnum).trans (h.sleep _ 0 hnum).le)

theorem Paced.time_lt (h : Paced numPigs rounds) {k k' i j : ℕ} (hk : k < k') (hi : i < numPigs)
    (hj : j < numPigs) : ((rounds k).readings i).time < ((rounds k').readings j).time :=
  calc ((rounds k).readings i).time < (rounds (k + 1)).now := h.sleep k i hi
    _ ≤ (rounds k').now := h.now_le_now (Nat.zero_lt_of_lt hi) hk
    _ ≤ ((rounds k').readings j).time := h.now_le k' j hj

/-- Who is ranked before another came home before it. -/
theorem Race.Timed.earlierHome (h : s.Timed rands start numPigs rounds k)
    (hpaced : Paced numPigs rounds) (hgo : s.goesOn = false) {i j : ℕ} (hi : i < numPigs)
    (hj : j < numPigs) (hfaster : Ranking.FasterThan s.pigs i j) :
    EarlierHome rands start numPigs rounds i j := by
  obtain ⟨f, -, hfi, hti⟩ := h.timed i hi (h.finished hgo hi)
  obtain ⟨f', -, hfj, htj⟩ := h.timed j hj (h.finished hgo hj)
  rw [Reading.draw] at hti htj
  dsimp only at hti htj
  refine ⟨f, f', hfi, hfj, ?_⟩
  rw [Ranking.FasterThan, hti, htj] at hfaster
  rcases lt_trichotomy f f' with hlt | rfl | hgt
  · exact Or.inl hlt
  · refine Or.inr ⟨rfl, ?_⟩
    rcases hfaster with hlt | ⟨-, hlt⟩
    · by_contra hge
      have hle := hpaced.readings_le f j i (not_lt.mp hge)
      omega
    · exact hlt
  · have hlt := hpaced.time_lt hgt hj hi
    omega

end Rounds

/-- When the race is over, the final ranking has every pig once, in the order in which they
came home. -/
theorem race_final_standing (rands : ℕ → ℕ) (start numPigs : ℕ) (rounds : ℕ → Round)
    (hpaced : Paced numPigs rounds) (k : ℕ) (s : Race)
    (hs : raceAfter rands start numPigs rounds k = some s) (hgo : s.goesOn = false)
    (rankedPigs : List ℤ) (hranked : numPigs ≤ rankedPigs.length) :
    ∃ rankedPigs', Ranking.rankPiggyFinal numPigs s.pigs rankedPigs = some rankedPigs' ∧
      Ranking.IsRanking (EarlierHome rands start numPigs rounds) numPigs rankedPigs' := by
  have htimed := raceAfter_timed hs
  have hfinal : ∃ rankedPigs', Ranking.rankPiggyFinal numPigs s.pigs rankedPigs =
      some rankedPigs' ∧ Ranking.IsRanking (Ranking.FasterThan s.pigs) numPigs rankedPigs' :=
    Ranking.exists_isRanking Piggy.timePeriod (fun _ _ => rfl) (fun _ _ h => h) htimed.length.ge
      hranked
  obtain ⟨rankedPigs', hrank, ranking, htake, hperm, hpairwise⟩ := hfinal
  refine ⟨rankedPigs', hrank, ranking, htake, hperm, ?_⟩
  apply hpairwise.imp_of_mem
  intro i j hi hj hfaster
  exact htimed.earlierHome hpaced hgo (List.mem_range.mp (hperm.mem_iff.mp hi))
    (List.mem_range.mp (hperm.mem_iff.mp hj)) hfaster

/-- Two seconds a round; the second pig is faster. -/
def pacedRounds (k : ℕ) : Round := ⟨2 * k, fun i => ⟨4 + i, 2 * k + 1⟩, -1⟩

theorem race_final_standing_example :
    ∃ s, raceAfter (fun _ => 2) 0 2 pacedRounds 60 = some s ∧
      ∃ rankedPigs', Ranking.rankPiggyFinal 2 s.pigs [0, 0] = some rankedPigs' ∧
        Ranking.IsRanking (EarlierHome (fun _ => 2) 0 2 pacedRounds) 2 rankedPigs' := by
  have hover : (raceAfter (fun _ => 2) 0 2 pacedRounds 60).any (fun s => s.goesOn = false) := by
    decide +kernel
  obtain ⟨s, hs, hgo⟩ := (Option.any_eq_true _ _).mp hover
  have hpaced : Paced 2 pacedRounds := by
    constructor
    · intro k i _
      exact Nat.le_succ _
    · intro k i j _
      exact le_rfl
    · intro k i _
      exact Nat.lt_succ_self _
  exact ⟨s, hs, race_final_standing (fun _ => 2) 0 2 pacedRounds hpaced 60 s hs
    (of_decide_eq_true hgo) [0, 0] le_rfl⟩

end MorningProjects.Gopiggy
