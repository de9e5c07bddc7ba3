import MorningProjects.Gopiggy.Ranking

/-!
# The race loop and its clock

The loop of `pig` over the rounds, with whatever the catch tests answer. Every unfinished
pig moves on by `MIN_SPEED` or more, so that a hundred rounds are enough. The only divisor
that depends on the clock of a later round is `time_interval`, an `int` as `f_start_time`
is one, and it is zero when that round starts a multiple of `2 ^ 32` seconds after the
race.
-/
namespace MorningProjects.Gopiggy

/-! ### The loop -/

/-- A result of `rand()` and, should the pig finish, one of `time(NULL)`. -/
structure Reading where
  rand : ℕ
  time : ℕ

/-- What a round reads: the time at its start, a reading for each pig, and the answer of the
catch test, or of the last one if it is skipped. -/
structure Round where
  now : ℕ
  readings : ℕ → Reading
  piggyAppleCatcher : ℤ

def toInt (x : ℤ) : ℤ := x.bmod (2 ^ 32)

/-- `time_interval`; `f_start_time` is an `int`, too. -/
def timeInterval (start now : ℕ) : ℤ := toInt (now - toInt start)

/-- `time_period` is a `long`. -/
def Reading.draw (start : ℕ) (r : Reading) : Draw := ⟨r.rand, r.time - toInt start⟩

structure Race where
  pigs : List Piggy
  indexAppleCatcher : ℤ
  lap : Lap

def Race.start (numPigs : ℕ) : Race := ⟨List.replicate numPigs Piggy.zero, -1, ⟨0, 0, []⟩⟩

def Race.reward (piggyAppleCatcher : ℤ) (s : Race) : Race :=
  if -1 ≠ piggyAppleCatcher then
    { s with indexAppleCatcher := piggyAppleCatcher, lap := { s.lap with appleBonus := 3 } }
  else s

/-- The body of the loop, the ranking apart; a division by zero has no result. -/
def Race.round (rands : ℕ → ℕ) (start : ℕ) (r : Round) (s : Race) : Option Race :=
  (runPiggies rands s.indexAppleCatcher (timeInterval start r.now)
    (fun i => (r.readings i).draw start) 0 s.pigs s.lap).map fun (pigs, lap) =>
      Race.reward r.piggyAppleCatcher { s with pigs := pigs, lap := lap }

def Race.goesOn (s : Race) : Bool := s.lap.numPiggyFinished < s.pigs.length

/-- The race after some rounds, if the loop makes as many: the first round is always made. -/
def raceAfter (rands : ℕ → ℕ) (start numPigs : ℕ) (rounds : ℕ → Round) : ℕ → Option Race
  | 0 => some (Race.start numPigs)
  | k + 1 =>
    (raceAfter rands start numPigs rounds k).bind fun s =>
      if k = 0 ∨ s.goesOn then s.round rands start (rounds k) else none

/-! ### What has to hold -/

/-- A clock that never goes back; a reading that no pig takes is one of the same clock. -/
structure InOrder (start numPigs : ℕ) (rounds : ℕ → Round) : Prop where
  start_le : start ≤ (rounds 0).now
  now_le : ∀ k i, (rounds k).now ≤ ((rounds k).readings i).time
  readings_le : ∀ k i j, i ≤ j → ((rounds k).readings i).time ≤ ((rounds k).readings j).time
  next_le : ∀ k, ∀ i < numPigs, ((rounds k).readings i).time ≤ (rounds (k + 1)).now
  now_le_next : ∀ k, (rounds k).now ≤ (rounds (k + 1)).now

def finishedPigs (pigs : List Piggy) : ℕ := pigs.countP (·.currentPosition = trackLength)

structure Race.Sound (numPigs : ℕ) (s : Race) : Prop where
  length : s.pigs.length = numPigs
  onTrack : ∀ p ∈ s.pigs, p.currentPosition ≤ trackLength
  counted : s.lap.numPiggyFinished = finishedPigs s.pigs

def Race.NotBehind (s s' : Race) : Prop :=
  List.Forall₂ (fun p p' : Piggy => p.currentPosition ≤ p'.currentPosition) s.pigs s'.pigs

/-- Every state is sound, every round that the loop makes divides by no zero and moves no pig
back, and the loop ends within a hundred rounds with all pigs finished. -/
structure RaceMeets (rands : ℕ → ℕ) (start numPigs : ℕ) (rounds : ℕ → Round) : Prop where
  sound : ∀ k s, raceAfter rands start numPigs rounds k = some s → s.Sound numPigs
  round : ∀ k s, raceAfter rands start numPigs rounds k = some s → (k = 0 ∨ s.goesOn) →
    ∃ s', raceAfter rands start numPigs rounds (k + 1) = some s' ∧ s.NotBehind s'
  ends : ∃ k s, 0 < k ∧ k ≤ 100 ∧ raceAfter rands start numPigs rounds k = some s ∧
    s.goesOn = false ∧ s.lap.numPiggyFinished = numPigs

/-- The clock at the start of a round is no multiple of `2 ^ 32` seconds after the start of the
race, unless not a second has passed and the start is one that `int` can hold. -/
def ClockMeets (start now : ℕ) : Prop :=
  (2 ^ 32 : ℤ) ∣ now - start → now = start ∧ start < 2 ^ 31

instance (start now : ℕ) : Decidable (ClockMeets start now) :=
  inferInstanceAs (Decidable (_ → _))

/-- Every round that starts when a pig has finished meets the condition on the clock. -/
def RoundsMeet (rands : ℕ → ℕ) (start numPigs : ℕ) (rounds : ℕ → Round) : Prop :=
  ∀ k s, raceAfter rands start numPigs rounds k = some s → s.goesOn →
    0 < s.lap.numPiggyFinished → ClockMeets start (rounds k).now

/-! ### The clock -/

theorem toInt_of_lt {start : ℕ} (h : start < 2 ^ 31) : toInt start = start := by
  rw [toInt, Int.bmod_def]
  omega

theorem toInt_le (start : ℕ) : toInt start ≤ start := by
  rw [toInt, Int.bmod_def]
  omega

theorem timeInterval_eq_zero_iff {start now : ℕ} :
    timeInterval start now = 0 ↔ (2 ^ 32 : ℤ) ∣ now - start := by
  rw [timeInterval, toInt, toInt, Int.sub_bmod_bmod, ← Int.dvd_iff_bmod_eq_zero]
  norm_num

/-! ### A pig's part of a round -/

/-- What a round makes of a pig: it keeps to the track and does not fall back, and it finishes
or moves on by the minimal speed. -/
structure Piggy.Moved (p p' : Piggy) : Prop where
  le : p.currentPosition ≤ p'.currentPosition
  onTrack : p'.currentPosition ≤ trackLength
  advance : p'.currentPosition = trackLength ∨ p.currentPosition + minSpeed ≤ p'.currentPosition

def Piggy.Unrated (p : Piggy) : Prop := p.currentPosition = trackLength ∧ p.averageSpeed = 0

section Piggy

variable {timeInterval : ℤ}

theorem trackLength_ne_zero : trackLength ≠ 0 := by decide

theorem minSpeed_le_maxSpeed : minSpeed ≤ maxSpeed := by decide

theorem chooseSpeed_spec (rands : ℕ → ℕ) (indexAppleCatcher : ℤ) (i rand : ℕ) (l : Lap) :
    minSpeed ≤ (chooseSpeed rands indexAppleCatcher i rand l).1 ∧
      (chooseSpeed rands indexAppleCatcher i rand l).2.numPiggyFinished = l.numPiggyFinished := by
  rw [chooseSpeed]
  split_ifs
  · exact ⟨le_add_of_nonneg_right (Int.natCast_nonneg _), rfl⟩
  all_goals exact ⟨minSpeed_le_maxSpeed, rfl⟩

/-- The pig of one iteration: it has a result when neither divisor is zero. -/
theorem runPiggy_moved (rands : ℕ → ℕ) (indexAppleCatcher : ℤ) (i : ℕ) (l : Lap) {draw : Draw}
    {p : Piggy} (htrack : p.currentPosition ≤ trackLength)
    (hperiod : 0 < draw.elapsed + 1) (hinterval : p.Unrated → timeInterval ≠ 0) :
    ∃ p' l', runPiggy rands indexAppleCatcher timeInterval i draw l p = some (p', l') ∧
      p.Moved p' ∧
      l'.numPiggyFinished + finishedPigs [p] = l.numPiggyFinished + finishedPigs [p'] ∧
      (p'.Unrated → p.Unrated ∨ 0 < draw.elapsed) := by
  obtain ⟨hspeed, hnum⟩ := chooseSpeed_spec rands indexAppleCatcher i draw.rand l
  rw [runPiggy]
  by_cases hfinished : trackLength ≠ p.currentPosition
  · rw [if_pos hfinished]
    dsimp only
    have hold : finishedPigs [p] = 0 := by simp [finishedPigs, hfinished.symm]
    by_cases hend : p.currentPosition + (chooseSpeed rands indexAppleCatcher i draw.rand l).1 ≥
        trackLength
    · rw [if_pos hend, if_neg (by omega)]
      refine ⟨_, _, rfl, ⟨htrack, le_rfl, Or.inl rfl⟩, ?_, ?_⟩
      · rw [hold]
        simp [finishedPigs, hnum]
      · rintro ⟨-, haverage⟩
        refine Or.inr ?_
        by_contra helapsed
        have hone : draw.elapsed + 1 = 1 := by omega
        rw [hone, Int.tdiv_one] at haverage
        exact absurd haverage trackLength_ne_zero
    · rw [if_neg hend]
      have hlt : p.currentPosition + (chooseSpeed rands indexAppleCatcher i draw.rand l).1 ≠
        trackLength := by omega
      have hmin : (0 : ℤ) ≤ minSpeed := by decide
      refine ⟨_, _, rfl, ⟨?_, ?_, Or.inr ?_⟩, ?_, fun h => absurd h.1 hlt⟩
      · dsimp only
        omega
      · dsimp only
        omega
      · dsimp only
        omega
      · rw [hold]
        simp [finishedPigs, hnum, hlt]
  · rw [if_neg hfinished]
    have heq : p.currentPosition = trackLength := (not_not.mp hfinished).symm
    by_cases haverage : 0 = p.averageSpeed
    · have hunrated : p.Unrated := ⟨heq, haverage.symm⟩
      rw [if_pos haverage, if_neg (hinterval hunrated)]
      exact ⟨_, _, rfl, ⟨le_rfl, htrack, Or.inl heq⟩, rfl, fun _ => Or.inl hunrated⟩
    · rw [if_neg haverage]
      exact ⟨_, _, rfl, ⟨le_rfl, htrack, Or.inl heq⟩, rfl, fun h => absurd h.2.symm haverage⟩

theorem finishedPigs_cons (p : Piggy) (ps : List Piggy) :
    finishedPigs (p :: ps) = finishedPigs [p] + finishedPigs ps := by
  rw [finishedPigs, finishedPigs, finishedPigs, ← List.countP_append, List.singleton_append]

theorem runPiggies_moved (rands : ℕ → ℕ) (indexAppleCatcher : ℤ) (i : ℕ) (l : Lap)
    {draws : ℕ → Draw} {ps : List Piggy}
    (htrack : ∀ p ∈ ps, p.currentPosition ≤ trackLength)
    (hperiod : ∀ j, 0 < (draws j).elapsed + 1)
    (hinterval : ∀ p ∈ ps, p.Unrated → timeInterval ≠ 0) :
    ∃ ps' l', runPiggies rands indexAppleCatcher timeInterval draws i ps l = some (ps', l') ∧
      List.Forall₂ Piggy.Moved ps ps' ∧
      l'.numPiggyFinished + finishedPigs ps = l.numPiggyFinished + finishedPigs ps' ∧
      ((∃ p' ∈ ps', p'.Unrated) →
        (∃ p ∈ ps, p.Unrated) ∨ ∃ j < i + ps.length, 0 < (draws j).elapsed) := by
  induction ps generalizing i l with
  | nil => exact ⟨[], l, rfl, List.Forall₂.nil, rfl, fun ⟨_, h, _⟩ => absurd h List.not_mem_nil⟩
  | cons p ps ih =>
    obtain ⟨p', l1, hp, hmoved, hcount, hlate⟩ := runPiggy_moved rands indexAppleCatcher i l
      (htrack p List.mem_cons_self) (hperiod i) (hinterval p List.mem_cons_self)
    obtain ⟨ps', l2, hps, hmoveds, hcounts, hlates⟩ := ih (i + 1) l1
      (fun q hq => htrack q (List.mem_cons_of_mem p hq))
      (fun q hq => hinterval q (List.mem_cons_of_mem p hq))
    refine ⟨p' :: ps', l2, ?_, List.Forall₂.cons hmoved hmoveds, ?_, ?_⟩
    · rw [runPiggies, hp, Option.bind_some]
      dsimp only
      rw [hps, Option.map_some]
    · rw [finishedPigs_cons p ps, finishedPigs_cons p' ps']
      omega
    · rintro ⟨q, hq, hunrated⟩
      rcases List.mem_cons.mp hq with rfl | hq
      · rcases hlate hunrated with hold | hpos
        · exact Or.inl ⟨p, List.mem_cons_self, hold⟩
        · refine Or.inr ⟨i, ?_, hpos⟩
          rw [List.length_cons]
          omega
      · rcases hlates ⟨q, hq, hunrated⟩ with ⟨r, hr, hold⟩ | ⟨j, hj, hpos⟩
        · exact Or.inl ⟨r, List.mem_cons_of_mem p hr, hold⟩
        · refine Or.inr ⟨j, ?_, hpos⟩
          rw [List.length_cons]
          omega

end Piggy

/-! ### The rounds -/

section Rounds

variable {rands : ℕ → ℕ} {start numPigs k : ℕ} {rounds : ℕ → Round} {s : Race}

/-- The invariant at the head of round `k`: a finished pig can only be unrated when its finish
was later than the start, and then so is the round. -/
structure Race.Kept (start numPigs k now : ℕ) (s : Race) : Prop where
  sound : s.Sound numPigs
  advance : ∀ p ∈ s.pigs, p.currentPosition = trackLength ∨ minSpeed * k ≤ p.currentPosition
  late : start < 2 ^ 31 → (∃ p ∈ s.pigs, p.Unrated) → start < now

@[simp] theorem Race.reward_pigs (piggyAppleCatcher : ℤ) (s : Race) :
    (s.reward piggyAppleCatcher).pigs = s.pigs := by
  rw [Race.reward]
  split_ifs <;> rfl

@[simp] theorem Race.reward_numPiggyFinished (piggyAppleCatcher : ℤ) (s : Race) :
    (s.reward piggyAppleCatcher).lap.numPiggyFinished = s.lap.numPiggyFinished := by
  rw [Race.reward]
  split_ifs <;> rfl

theorem Race.start_kept (start numPigs now : ℕ) :
    (Race.start numPigs).Kept start numPigs 0 now := by
  have hzero : ∀ p ∈ (Race.start numPigs).pigs, p = Piggy.zero :=
    fun p hp => List.eq_of_mem_replicate hp
  refine ⟨⟨List.length_replicate, fun p hp => ?_, ?_⟩, fun p hp => ?_, ?_⟩
  · rw [hzero p hp]
    decide
  · change 0 = finishedPigs (Race.start numPigs).pigs
    rw [eq_comm, finishedPigs, List.countP_eq_zero]
    intro p hp
    rw [hzero p hp]
    decide
  · rw [hzero p hp]
    exact Or.inr (by decide)
  · rintro - ⟨p, hp, hunrated⟩
    rw [hzero p hp] at hunrated
    exact absurd hunrated.1 (by decide)

theorem InOrder.start_le_now (h : InOrder start numPigs rounds) (k : ℕ) :
    start ≤ (rounds k).now := by
  induction k with
  | zero => exact h.start_le
  | succ k ih => exact ih.trans (h.now_le_next k)

theorem elapsed_nonneg (h : InOrder start numPigs rounds) (k i : ℕ) :
    0 ≤ (((rounds k).readings i).draw start).elapsed := by
  have hstart := h.start_le_now k
  have hnow := h.now_le k i
  have hint := toInt_le start
  rw [Reading.draw]
  dsimp only
  omega

/-- A pig that has finished at the head of a round was counted. -/
theorem Race.Kept.finished_pos {now : ℕ} (h : s.Kept start numPigs k now) {p : Piggy}
    (hp : p ∈ s.pigs) (hend : p.currentPosition = trackLength) : 0 < s.lap.numPiggyFinished := by
  rw [h.sound.counted, finishedPigs, List.countP_pos_iff]
  exact ⟨p, hp, decide_eq_true hend⟩

theorem exists_moved {ps ps' : List Piggy} (h : List.Forall₂ Piggy.Moved ps ps') {p' : Piggy}
    (hp' : p' ∈ ps') : ∃ p ∈ ps, p.Moved p' := by
  induction h with
  | nil => cases hp'
  | cons hmoved _ ih =>
    rcases List.mem_cons.mp hp' with rfl | hp'
    · exact ⟨_, List.mem_cons_self, hmoved⟩
    · obtain ⟨p, hp, hmoved⟩ := ih hp'
      exact ⟨p, List.mem_cons_of_mem _ hp, hmoved⟩

/-- The step: a round that starts when `time_interval` is no zero divisor. -/
theorem Race.Kept.round (rands : ℕ → ℕ) (h : s.Kept start numPigs k (rounds k).now)
    (horder : InOrder start numPigs rounds)
    (hclock : 0 < s.lap.numPiggyFinished → ClockMeets start (rounds k).now) :
    ∃ s', s.round rands start (rounds k) = some s' ∧ s.NotBehind s' ∧
      s'.Kept start numPigs (k + 1) (rounds (k + 1)).now := by
  obtain ⟨⟨hlength, htrack, hcounted⟩, hadvance, hlate⟩ := h
  have hinterval : ∀ p ∈ s.pigs, p.Unrated → timeInterval start (rounds k).now ≠ 0 := by
    intro p hp hunrated hzero
    obtain ⟨hnow, hint⟩ := hclock (Race.Kept.finished_pos ⟨⟨hlength, htrack, hcounted⟩, hadvance,
      hlate⟩ hp hunrated.1) (timeInterval_eq_zero_iff.mp hzero)
    have hlt := hlate hint ⟨p, hp, hunrated⟩
    omega
  have hperiod : ∀ j, 0 < (((rounds k).readings j).draw start).elapsed + 1 := by
    intro j
    have := elapsed_nonneg horder k j
    omega
  obtain ⟨ps, l, hrun, hmoved, hcount, hunrated⟩ :=
    runPiggies_moved rands s.indexAppleCatcher 0 s.lap htrack hperiod hinterval
  refine ⟨_, by rw [Race.round, hrun, Option.map_some], ?_, ⟨?_, ?_, ?_⟩, ?_, ?_⟩
  · rw [Race.NotBehind, Race.reward_pigs]
    exact hmoved.imp fun _ _ hp => hp.le
  · rw [Race.reward_pigs]
    exact hmoved.length_eq.symm.trans hlength
  · rw [Race.reward_pigs]
    intro p' hp'
    obtain ⟨p, -, hp⟩ := exists_moved hmoved hp'
    exact hp.onTrack
  · rw [Race.reward_pigs, Race.reward_numPiggyFinished]
    dsimp only
    omega
  · rw [Race.reward_pigs]
    intro p' hp'
    obtain ⟨p, hp, hmove⟩ := exists_moved hmoved hp'
    have hmin : minSpeed * (k + 1 : ℕ) = minSpeed * k + minSpeed := by push_cast; ring
    have hle := hmove.le
    have htrack' := hmove.onTrack
    rcases hmove.advance with hend | hmove
    · exact Or.inl hend
    · rcases hadvance p hp with hend | hold
      · exact Or.inl (by omega)
      · exact Or.inr (by omega)
  · intro hint hex
    rw [Race.reward_pigs] at hex
    have hnow := horder.now_le_next k
    rcases hunrated hex with hold | ⟨j, hj, hpos⟩
    · exact (hlate hint hold).trans_le hnow
    · rw [Nat.zero_add, hlength] at hj
      have hnext := horder.next_le k j hj
      rw [Reading.draw, toInt_of_lt hint] at hpos
      dsimp only at hpos
      omega

theorem round_clock (hmeet : RoundsMeet rands start numPigs rounds)
    (hs : raceAfter rands start numPigs rounds k = some s) (hgo : k = 0 ∨ s.goesOn) :
    0 < s.lap.numPiggyFinished → ClockMeets start (rounds k).now := by
  intro hpos
  rcases hgo with rfl | hgo
  · cases hs
    exact absurd hpos (lt_irrefl 0)
  · exact hmeet k s hs hgo hpos

/-- The run: the invariant holds at the head of every round. -/
theorem raceAfter_kept (horder : InOrder start numPigs rounds)
    (hmeet : RoundsMeet rands start numPigs rounds)
    (hs : raceAfter rands start numPigs rounds k = some s) :
    s.Kept start numPigs k (rounds k).now := by
  induction k generalizing s with
  | zero =>
    cases hs
    exact Race.start_kept start numPigs _
  | succ k ih =>
    obtain ⟨t, ht, hround⟩ := Option.bind_eq_some_iff.mp hs
    have hkept := ih ht
    split_ifs at hround with hgo
    obtain ⟨s', hs', -, hkept'⟩ := hkept.round rands horder (round_clock hmeet ht hgo)
    rw [hs'] at hround
    exact Option.some.inj hround ▸ hkept'

theorem raceAfter_round (horder : InOrder start numPigs rounds)
    (hmeet : RoundsMeet rands start numPigs rounds)
    (hs : raceAfter rands start numPigs rounds k = some s) (hgo : k = 0 ∨ s.goesOn) :
    ∃ s', raceAfter rands start numPigs rounds (k + 1) = some s' ∧ s.NotBehind s' := by
  obtain ⟨s', hs', hnot, -⟩ :=
    (raceAfter_kept horder hmeet hs).round rands horder (round_clock hmeet hs hgo)
  refine ⟨s', ?_, hnot⟩
  rw [raceAfter, hs, Option.bind_some, if_pos hgo, hs']

theorem Race.Kept.finished {now : ℕ} (h : s.Kept start numPigs k now) (hk : 100 ≤ k) :
    s.goesOn = false := by
  have hall : finishedPigs s.pigs = s.pigs.length := by
    rw [finishedPigs, List.countP_eq_length]
    intro p hp
    have htrack := h.sound.onTrack p hp
    have hmin : minSpeed = 6 := rfl
    have hlength : trackLength = 600 := rfl
    rcases h.advance p hp with hend | hmove
    · exact decide_eq_true hend
    · rw [hmin] at hmove
      exact decide_eq_true (by omega)
  rw [Race.goesOn, h.sound.counted, hall]
  exact decide_eq_false (lt_irrefl _)

theorem ended_or_goesOn (horder : InOrder start numPigs rounds)
    (hmeet : RoundsMeet rands start numPigs rounds) (k : ℕ) :
    (∃ j s, 0 < j ∧ j ≤ k ∧ raceAfter rands start numPigs rounds j = some s ∧
      s.goesOn = false) ∨
    ∃ s, raceAfter rands start numPigs rounds k = some s ∧ (k = 0 ∨ s.goesOn) := by
  induction k with
  | zero => exact Or.inr ⟨_, rfl, Or.inl rfl⟩
  | succ k ih =>
    rcases ih with ⟨j, s, hpos, hj, hend⟩ | ⟨s, hs, hgo⟩
    · exact Or.inl ⟨j, s, hpos, by omega, hend⟩
    · obtain ⟨s', hs', -⟩ := raceAfter_round horder hmeet hs hgo
      cases hgo' : s'.goesOn with
      | false => exact Or.inl ⟨k + 1, s', by omega, le_rfl, hs', hgo'⟩
      | true => exact Or.inr ⟨s', hs', Or.inr hgo'⟩

end Rounds

/-- With a clock that never goes back, and that meets the condition whenever a round starts
when a pig has finished, the race keeps its invariant and ends. -/
theorem raceAfter_meets (rands : ℕ → ℕ) (start numPigs : ℕ) (rounds : ℕ → Round)
    (horder : InOrder start numPigs rounds) (hmeet : RoundsMeet rands start numPigs rounds) :
    RaceMeets rands start numPigs rounds where
  sound _ _ hs := (raceAfter_kept horder hmeet hs).sound
  round _ _ := raceAfter_round horder hmeet
  ends := by
    have hended : ∃ k s, 0 < k ∧ k ≤ 100 ∧ raceAfter rands start numPigs rounds k = some s ∧
        s.goesOn = false := by
      rcases ended_or_goesOn horder hmeet 100 with hend | ⟨s, hs, hgo⟩
      · exact hend
      · exact ⟨100, s, by decide, le_rfl, hs,
          (raceAfter_kept horder hmeet hs).finished le_rfl⟩
    obtain ⟨k, s, hpos, hk, hs, hgo⟩ := hended
    refine ⟨k, s, hpos, hk, hs, hgo, ?_⟩
    have hsound := (raceAfter_kept horder hmeet hs).sound
    have hcount : finishedPigs s.pigs ≤ s.pigs.length := List.countP_le_length
    have hle : ¬ s.lap.numPiggyFinished < s.pigs.length := of_decide_eq_false hgo
    have hcounted := hsound.counted
    have hlength := hsound.length
    omega

/-! ### A clock that stands still -/

/-- Every round within one second; the first pig is faster than the others. -/
def frozenRounds (time : ℕ) (_ : ℕ) : Round := ⟨time, fun i => ⟨if i = 0 then 3 else 0, time⟩, -1⟩

theorem frozenRounds_inOrder (time numPigs : ℕ) : InOrder time numPigs (frozenRounds time) :=
  ⟨le_rfl, fun _ _ => le_rfl, fun _ _ _ _ => le_rfl, fun _ _ _ => le_rfl, fun _ => le_rfl⟩

theorem raceAfter_meets_frozen : RaceMeets (fun _ => 0) 0 2 (frozenRounds 0) :=
  raceAfter_meets (fun _ => 0) 0 2 (frozenRounds 0) (frozenRounds_inOrder 0 2)
    fun _ _ _ _ _ _ => ⟨rfl, by decide⟩

/-- At the time `2 ^ 31` the first pig finishes in round 67 without an average speed, and the
next round divides by zero. -/
theorem raceAfter_frozen_divides :
    InOrder (2 ^ 31) 2 (frozenRounds (2 ^ 31)) ∧
      ¬ RaceMeets (fun _ => 0) (2 ^ 31) 2 (frozenRounds (2 ^ 31)) := by
  refine ⟨frozenRounds_inOrder _ 2, fun h => ?_⟩
  have hgo : (raceAfter (fun _ => 0) (2 ^ 31) 2 (frozenRounds (2 ^ 31)) 67).any Race.goesOn := by
    decide +kernel
  have hnone : (raceAfter (fun _ => 0) (2 ^ 31) 2 (frozenRounds (2 ^ 31)) 68).isNone := by
    decide +kernel
  obtain ⟨s, hs, hgo⟩ := (Option.any_eq_true _ _).mp hgo
  obtain ⟨s', hs', -⟩ := h.round 67 s hs (Or.inr hgo)
  rw [hs'] at hnone
  cases hnone

end MorningProjects.Gopiggy
