import MorningProjects.Gopiggy.Bonus
import MorningProjects.Gopiggy.Clock

/-!
# At most five apples

The feeder may miss the release of an apple, or undo it, and then the pig thread releases
the same apple again. Still it is not caught twice: the apple hangs less than 25 yards
ahead of the leading pig, it takes three rounds to fall, and by the next measure the
leading pig has run 24 yards or more.
-/
namespace MorningProjects.Gopiggy
open Library

def catches (events : List RaceEvent) : List ℕ :=
  events.filterMap fun event => match event with
    | .caught i => some i
    | .bonus _ => none

def Reached (pigs : List Piggy) (x : ℤ) : Prop := ∃ i < pigs.length, x ≤ Ranking.position pigs i

/-- An apple was released that is not among the first `caught` ones, and since then the pigs ran
so many rounds. -/
def Falling (pigs : List Piggy) (caught runs : ℕ) : Prop :=
  ∃ j : ℕ, j ≤ 4 ∧ caught ≤ j ∧ Reached pigs (100 * j + 76 + minSpeed * runs)

def PigAt.ahead : PigAt → ℤ
  | .award | .race | .finished => minSpeed
  | _ => 0

/-- What is known of an apple that may still be caught. Behind the last apple no test is made. -/
def Game.Watched (s : Game) : Prop :=
  match s.pigAt with
  | .measure => s.appleReleased = false
  | .release => Falling s.pigs (catches s.events).length 0 ∨ 5 ≤ s.appleIndexAvailable
  | .look _ | .grab _ | .take _ => Falling s.pigs (catches s.events).length 3
  | .testReleased => s.appleReleased = true → s.appleFallCount < 3 →
      Falling s.pigs (catches s.events).length (s.appleFallCount + 1)
  | .testIndex => s.appleReleased = true → s.appleFallCount < 3 →
      Falling s.pigs (catches s.events).length (s.appleFallCount + 1) ∨ 5 ≤ s.appleIndexAvailable
  | .race | .award | .finished => s.appleReleased = true → s.appleFallCount < 3 →
      Falling s.pigs (catches s.events).length s.appleFallCount ∨ 5 ≤ s.appleIndexAvailable

/-- The invariant: there are five apples, and the next measure will be behind the last one
that was caught. -/
structure Game.Fed (s : Game) : Prop where
  caught : (catches s.events).length ≤ 5
  reached : Reached s.pigs (100 * (catches s.events).length - s.pigAt.ahead)
  watched : s.Watched

section Reach

variable {pigs pigs' : List Piggy} {x y : ℤ}

theorem Reached.mono (h : Reached pigs y) (hxy : x ≤ y) : Reached pigs x := by
  obtain ⟨i, hi, hy⟩ := h
  exact ⟨i, hi, hxy.trans hy⟩

theorem Reached.post {n : ℤ} (h : Reached pigs (n - 0)) : Reached pigs (n - minSpeed) :=
  h.mono (sub_le_sub_left (by decide) n)

theorem Reached.congr (h : Reached pigs x) (hlength : pigs'.length = pigs.length)
    (hkey : behindKey pigs' = behindKey pigs) : Reached pigs' x := by
  obtain ⟨i, hi, hx⟩ := h
  have hposition := congrFun hkey i
  rw [behindKey, behindKey, neg_inj] at hposition
  exact ⟨i, hlength ▸ hi, hposition ▸ hx⟩

theorem Falling.mono {caught runs runs' : ℕ} (h : Falling pigs caught runs) (hle : runs' ≤ runs) :
    Falling pigs caught runs' := by
  obtain ⟨j, hj, hcaught, hreached⟩ := h
  refine ⟨j, hj, hcaught, hreached.mono ?_⟩
  have hmin : minSpeed = 6 := rfl
  rw [hmin]
  omega

theorem Falling.reached {caught : ℕ} (h : Falling pigs caught 3) :
    caught + 1 ≤ 5 ∧ Reached pigs (100 * (caught + 1 : ℕ) - minSpeed) := by
  obtain ⟨j, hj, hcaught, hreached⟩ := h
  refine ⟨by omega, hreached.mono ?_⟩
  have hmin : minSpeed = 6 := rfl
  rw [hmin]
  push_cast
  omega

end Reach

/-! ### A round -/

section Lap

variable {rands : ℕ → ℕ} {indexAppleCatcher timeInterval : ℤ} {l l' : Lap}

theorem runPiggy_runs {i : ℕ} {draw : Draw} {p p' : Piggy}
    (hrun : runPiggy rands indexAppleCatcher timeInterval i draw l p = some (p', l')) :
    (p'.currentPosition = trackLength ∨ p.currentPosition + minSpeed ≤ p'.currentPosition) ∧
      p'.numApplesCaught = p.numApplesCaught ∧ catches l'.events = catches l.events := by
  have hspeed := (chooseSpeed_spec rands indexAppleCatcher i draw.rand l).1
  have hevents : catches (chooseSpeed rands indexAppleCatcher i draw.rand l).2.events =
      catches l.events := by
    rw [chooseSpeed]
    split_ifs <;> rfl
  rw [runPiggy] at hrun
  dsimp only at hrun
  split_ifs at hrun with hfinished
  · cases hrun
    exact ⟨Or.inl rfl, rfl, hevents⟩
  · cases hrun
    refine ⟨Or.inr ?_, rfl, hevents⟩
    dsimp only
    omega
  · cases hrun
    exact ⟨Or.inl (not_not.mp hfinished).symm, rfl, rfl⟩
  · cases hrun
    exact ⟨Or.inl (not_not.mp hfinished).symm, rfl, rfl⟩

theorem runPiggies_runs {draws : ℕ → Draw} {i : ℕ} {ps ps' : List Piggy}
    (hrun : runPiggies rands indexAppleCatcher timeInterval draws i ps l = some (ps', l')) :
    (∀ x, Reached ps x → x + minSpeed ≤ trackLength → Reached ps' (x + minSpeed)) ∧
      (∀ j, (ps'.getD j Piggy.zero).numApplesCaught = (ps.getD j Piggy.zero).numApplesCaught) ∧
      catches l'.events = catches l.events := by
  induction ps generalizing i l ps' with
  | nil =>
    cases hrun
    exact ⟨fun x ⟨j, hj, _⟩ => absurd hj (Nat.not_lt_zero j), fun _ => rfl, rfl⟩
  | cons p ps ih =>
    obtain ⟨⟨p', l1⟩, hp, hrun⟩ := Option.bind_eq_some_iff.mp hrun
    obtain ⟨⟨ps1, l2⟩, hps, heq⟩ := Option.map_eq_some_iff.mp hrun
    cases heq
    obtain ⟨hmove, hcount, hevents⟩ := runPiggy_runs hp
    obtain ⟨hmoves, hcounts, hevents'⟩ := ih hps
    refine ⟨?_, ?_, hevents'.trans hevents⟩
    · rintro x ⟨j, hj, hx⟩ htrack
      cases j with
      | zero =>
        refine ⟨0, Nat.succ_pos _, ?_⟩
        change x ≤ p.currentPosition at hx
        change x + minSpeed ≤ p'.currentPosition
        omega
      | succ j =>
        obtain ⟨k, hk, hx'⟩ := hmoves x ⟨j, Nat.lt_of_succ_lt_succ hj, hx⟩ htrack
        exact ⟨k + 1, Nat.succ_lt_succ hk, hx'⟩
    · intro j
      cases j with
      | zero => exact hcount
      | succ j => exact hcounts j

end Lap

/-! ### The steps of the threads -/

section Step

variable {rands : ℕ → ℕ} {s s' : Game} {numPigs : ℕ}

theorem start_fed (hnum : 0 < numPigs) (piggyAppleCatcher : ℤ) :
    (Game.start numPigs piggyAppleCatcher).Fed where
  caught := Nat.zero_le 5
  reached := by
    refine ⟨0, by rwa [Game.start, List.length_replicate], ?_⟩
    have hzero : Ranking.position (List.replicate numPigs Piggy.zero) 0 = 0 := by
      rw [Ranking.position, List.getD_eq_getElem?_getD, List.getElem?_replicate, if_pos hnum]
      rfl
    exact hzero ▸ Int.negSucc_le_zero 5
  watched hreleased := Bool.noConfusion hreleased

theorem Game.Fed.race (h : s.Fed) (hat : s.pigAt = .race) {timeInterval : ℤ} {draws : ℕ → Draw}
    (hs' : s.race rands timeInterval draws = some s') : s'.Fed := by
  obtain ⟨⟨pigs, l⟩, hrun, rfl⟩ := Option.map_eq_some_iff.mp hs'
  obtain ⟨hcaught, hreached, hwatched⟩ := h
  obtain ⟨hruns, -, hcatches⟩ := runPiggies_runs hrun
  change catches l.events = catches s.events at hcatches
  have hmin : minSpeed = 6 := rfl
  have hlength : trackLength = 600 := rfl
  rw [hat] at hreached
  rw [Game.Watched, hat] at hwatched
  constructor
  · rwa [hcatches]
  · rw [hcatches]
    change Reached s.pigs (100 * (catches s.events).length - minSpeed) at hreached
    have hnext := hruns _ hreached (by rw [hlength]; omega)
    rw [sub_add_cancel] at hnext
    exact hnext.mono (sub_zero _).le
  · intro hreleased hfall
    rw [hcatches]
    rcases hwatched hreleased hfall with ⟨j, hj, hle, hfar⟩ | hindex
    · have hfall' : s.appleFallCount < 3 := hfall
      refine Or.inl ⟨j, hj, hle, (hruns _ hfar ?_).mono ?_⟩
      · rw [hlength, hmin]
        omega
      · change _ + minSpeed * ((s.appleFallCount + 1 : ℕ) : ℤ) ≤ _
        rw [hmin]
        push_cast
        omega
    · exact Or.inr hindex

theorem appleLocation_eq {i : ℕ} (pastEnd : ℤ) (hi : i < 5) :
    appleLocation pastEnd i = 100 * (i + 1) := by
  interval_cases i <;> rfl

/-- The leading pig is near the next apple: it has passed all that were caught. -/
theorem Game.Fed.measure (h : s.Fed) (hat : s.pigAt = .measure)
    (hleads : Ranking.Leads s.pigs (s.rankedPigs.getD 0 0)) (pastEnd : ℤ)
    (hnear : appleLocation pastEnd s.appleIndexAvailable - s.position 0 < 25)
    (hahead : 0 < appleLocation pastEnd s.appleIndexAvailable - s.position 0) :
    Falling s.pigs (catches s.events).length 0 ∨ 5 ≤ s.appleIndexAvailable := by
  by_cases hindex : s.appleIndexAvailable < 5
  · obtain ⟨hlt, hmax⟩ := hleads
    obtain ⟨i, hi, hpassed⟩ := h.reached
    have hle := hmax i hi
    rw [hat] at hpassed
    change 100 * ((catches s.events).length : ℤ) - 0 ≤ _ at hpassed
    rw [appleLocation_eq pastEnd hindex] at hnear hahead
    change _ - Ranking.position s.pigs (s.rankedPigs.getD 0 0) < 25 at hnear
    change 0 < _ - Ranking.position s.pigs (s.rankedPigs.getD 0 0) at hahead
    refine Or.inl ⟨s.appleIndexAvailable, by omega, by omega, _, hlt, ?_⟩
    rw [Nat.cast_zero, mul_zero]
    omega
  · exact Or.inr (by omega)

theorem Game.Fed.pig (h : s.Fed) (hranked : s.Ranked numPigs) (hnum : 0 < numPigs) {pastEnd : ℤ}
    (hs' : s.pig pastEnd = some s') : s'.Fed := by
  obtain ⟨hcaught, hreached, hwatched⟩ := id h
  rw [Game.pig] at hs'
  rw [Game.Watched] at hwatched
  cases hat : s.pigAt with
  | race =>
    rw [hat] at hs'
    cases hs'
  | finished =>
    rw [hat] at hs'
    cases hs'
  | testIndex =>
    rw [hat] at hreached hwatched
    simp only [hat] at hs'
    split_ifs at hs' with hindex
    · cases hs'
      refine ⟨hcaught, hreached, ?_⟩
      intro hreleased hfall
      exact (hwatched hreleased hfall).resolve_right (not_le.mpr hindex)
    · cases hs'
      exact ⟨hcaught, hreached.post, fun _ _ => Or.inr (not_lt.mp hindex)⟩
  | testReleased =>
    rw [hat] at hreached hwatched
    simp only [hat] at hs'
    split_ifs at hs' with hreleased hfall
    · cases hs'
      exact ⟨hcaught, hreached, hreleased⟩
    · cases hs'
      refine ⟨hcaught, hreached, ?_⟩
      have hfalling := hwatched (Bool.eq_true_of_not_eq_false hreleased) (by omega)
      rwa [hfall] at hfalling
    · cases hs'
      refine ⟨hcaught, hreached.post, ?_⟩
      intro hreleased' hfall'
      exact Or.inl (hwatched hreleased' (Nat.lt_of_succ_lt hfall'))
  | measure =>
    rw [hat] at hreached hwatched
    simp only [hat] at hs'
    split_ifs at hs' with hnear
    · cases hs'
      refine ⟨hcaught, hreached, ?_⟩
      exact h.measure hat (hranked.leads hnum (by rw [hat]; exact PigAt.noConfusion)) pastEnd
        hnear.1 hnear.2
    · cases hs'
      refine ⟨hcaught, hreached.post, ?_⟩
      intro hreleased
      exact absurd (hwatched.symm.trans hreleased) Bool.false_ne_true
  | release =>
    rw [hat] at hreached hwatched
    simp only [hat] at hs'
    cases hs'
    exact ⟨hcaught, hreached.post, fun _ _ => hwatched⟩
  | look i =>
    rw [hat] at hreached hwatched
    simp only [hat] at hs'
    split_ifs at hs'
    · cases hs'
      exact ⟨hcaught, hreached, hwatched⟩
    · cases hs'
      exact ⟨hcaught, hreached, hwatched⟩
    · cases hs'
      exact ⟨hcaught, hreached.post, fun _ hfall => Or.inl (hwatched.mono hfall.le)⟩
  | grab i =>
    rw [hat] at hreached hwatched
    simp only [hat] at hs'
    split_ifs at hs'
    · cases hs'
      exact ⟨hcaught, hreached, hwatched⟩
    · cases hs'
      exact ⟨hcaught, hreached, hwatched⟩
  | take i =>
    rw [hat] at hwatched
    simp only [hat] at hs'
    cases hs'
    obtain ⟨hfive, hpassed⟩ := hwatched.reached
    exact ⟨hfive, hpassed.congr (List.length_modify _ _ _) (behindKey_modify _ _),
      fun hreleased => Bool.noConfusion hreleased⟩
  | award =>
    rw [hat] at hreached hwatched
    simp only [hat, Game.reward] at hs'
    cases hs'
    split_ifs
    all_goals exact ⟨hcaught, hreached, hwatched⟩

theorem Game.feeder_fed {timeout : Bool} (hs' : s.feeder timeout = some s') :
    s'.events = s.events ∧ s'.appleFallCount = s.appleFallCount ∧
      (s'.appleReleased = true → s.appleReleased = true) ∧
      s.appleIndexAvailable ≤ s'.appleIndexAvailable := by
  rw [Game.feeder] at hs'
  cases hat : s.feederAt with
  | waitCatch =>
    simp only [hat] at hs'
    split_ifs at hs'
    · cases hs'
      exact ⟨rfl, rfl, id, le_rfl⟩
    · cases hs'
      exact ⟨rfl, rfl, id, le_rfl⟩
  | exited =>
    simp only [hat] at hs'
    cases hs'
  | drop =>
    simp only [hat] at hs'
    cases hs'
    refine ⟨rfl, rfl, ?_, le_rfl⟩
    dsimp only
    split_ifs
    · intro hreleased
      cases hreleased
    · exact id
  | count =>
    simp only [hat] at hs'
    cases hs'
    exact ⟨rfl, rfl, id, Nat.le_succ _⟩
  | _ =>
    simp only [hat] at hs'
    cases hs'
    refine ⟨rfl, rfl, ?_, le_rfl⟩
    first
    | exact id
    | exact fun hreleased => Bool.noConfusion hreleased

theorem Game.Fed.feeder (h : s.Fed) {timeout : Bool} (hs' : s.feeder timeout = some s') :
    s'.Fed := by
  obtain ⟨hcaught, hreached, hwatched⟩ := h
  obtain ⟨hat, -, hpigs⟩ := Game.feeder_ranked hs'
  obtain ⟨hevents, hfall, hreleased, hindex⟩ := Game.feeder_fed hs'
  refine ⟨?_, ?_, ?_⟩
  · rwa [hevents]
  · rwa [hevents, hpigs, hat]
  · rw [Game.Watched] at hwatched ⊢
    rw [hat, hevents, hpigs, hfall]
    cases hs : s.pigAt with
    | measure =>
      rw [hs] at hwatched
      exact Bool.eq_false_of_not_eq_true fun h => absurd (hreleased h) (by simp [hwatched])
    | release =>
      rw [hs] at hwatched
      exact hwatched.imp_right fun h => h.trans hindex
    | look i =>
      rw [hs] at hwatched
      exact hwatched
    | grab i =>
      rw [hs] at hwatched
      exact hwatched
    | take i =>
      rw [hs] at hwatched
      exact hwatched
    | testReleased =>
      rw [hs] at hwatched
      exact fun h => hwatched (hreleased h)
    | _ =>
      rw [hs] at hwatched
      exact fun h hlt => (hwatched (hreleased h) hlt).imp_right fun h => h.trans hindex

theorem gameStep_fed {step : GameStep} (hnum : 0 < numPigs) (h : s.Fed ∧ s.Ranked numPigs)
    (hs' : gameStep rands s step = some s') : s'.Fed ∧ s'.Ranked numPigs := by
  refine ⟨?_, gameStep_ranked h.2 hs'⟩
  cases step with
  | race timeInterval draws =>
    rw [gameStep] at hs'
    split_ifs at hs' with hat
    exact h.1.race hat hs'
  | pig pastEnd => exact h.1.pig h.2 hnum hs'
  | feeder timeout => exact h.1.feeder hs'

end Step

/-! ### The counts of the pigs -/

/-- The counts agree with the catches; a pig about to catch is one of the race. -/
structure Game.CountsCatches (s : Game) : Prop where
  counted : ∀ i, (s.pigs.getD i Piggy.zero).numApplesCaught = (catches s.events).count i
  rank : ∀ i, s.pigAt = .grab i ∨ s.pigAt = .take i → i < s.pigs.length

section Counts

variable {rands : ℕ → ℕ} {s s' : Game} {numPigs : ℕ}

theorem start_countsCatches (numPigs : ℕ) (piggyAppleCatcher : ℤ) :
    (Game.start numPigs piggyAppleCatcher).CountsCatches where
  counted i := by
    rw [Game.start, List.getD_eq_getElem?_getD, List.getElem?_replicate]
    split_ifs <;> rfl
  rank i h := h.elim PigAt.noConfusion PigAt.noConfusion

theorem numApplesCaught_modify {pigs : List Piggy} {catcher : ℕ} (h : catcher < pigs.length)
    (i : ℕ) :
    ((pigs.modify catcher fun p => { p with numApplesCaught := p.numApplesCaught + 1 }).getD i
      Piggy.zero).numApplesCaught =
        (pigs.getD i Piggy.zero).numApplesCaught + if catcher = i then 1 else 0 := by
  rw [List.getD_eq_getElem?_getD, List.getD_eq_getElem?_getD, List.getElem?_modify]
  by_cases hi : catcher = i
  · subst hi
    rw [if_pos rfl, List.getElem?_eq_getElem h]
    simp
  · rw [if_neg hi, add_zero]
    simp [hi]

theorem Game.CountsCatches.pig (h : s.CountsCatches) (hranked : s.Ranked numPigs) {pastEnd : ℤ}
    (hs' : s.pig pastEnd = some s') : s'.CountsCatches := by
  obtain ⟨hcounted, hrank⟩ := h
  rw [Game.pig] at hs'
  cases hat : s.pigAt with
  | race =>
    rw [hat] at hs'
    cases hs'
  | finished =>
    rw [hat] at hs'
    cases hs'
  | look i =>
    simp only [hat] at hs'
    split_ifs at hs' with hi
    · cases hs'
      refine ⟨hcounted, ?_⟩
      rintro j (hj | hj)
      · cases hj
        exact hi
      · cases hj
    · cases hs'
      exact ⟨hcounted, fun j hj => hj.elim PigAt.noConfusion PigAt.noConfusion⟩
    · cases hs'
      exact ⟨hcounted, fun j hj => hj.elim PigAt.noConfusion PigAt.noConfusion⟩
  | grab i =>
    simp only [hat] at hs'
    split_ifs at hs'
    · cases hs'
      refine ⟨hcounted, ?_⟩
      rintro j (hj | hj)
      · cases hj
      · cases hj
        exact hrank i (Or.inl hat)
    · cases hs'
      exact ⟨hcounted, fun j hj => hj.elim PigAt.noConfusion PigAt.noConfusion⟩
  | take i =>
    simp only [hat] at hs'
    cases hs'
    refine ⟨?_, fun j hj => hj.elim PigAt.noConfusion PigAt.noConfusion⟩
    have hlt : s.rankedPigs.getD i 0 < s.pigs.length := by
      have hi := hrank i (Or.inr hat)
      obtain ⟨rfl, hranking⟩ := hranked
      rw [hranking (by rw [hat]; exact PigAt.noConfusion)]
      rw [List.getD_eq_getElem?_getD, List.getElem?_eq_getElem (by rwa [length_rankBy])]
      exact lt_of_mem_rankBy (List.getElem_mem _)
    intro j
    change ((s.pigs.modify _ _).getD j Piggy.zero).numApplesCaught = _
    rw [numApplesCaught_modify hlt, hcounted j]
    change _ = ((List.count j (_ :: catches s.events) : ℕ) : ℤ)
    rw [List.count_cons]
    push_cast
    simp
  | award =>
    simp only [hat, Game.reward] at hs'
    cases hs'
    split_ifs
    all_goals exact ⟨hcounted, fun j hj => hj.elim PigAt.noConfusion PigAt.noConfusion⟩
  | _ =>
    simp only [hat] at hs'
    try split_ifs at hs'
    all_goals
      cases hs'
      exact ⟨hcounted, fun j hj => hj.elim PigAt.noConfusion PigAt.noConfusion⟩

theorem gameStep_countsCatches {step : GameStep} (h : s.CountsCatches)
    (hranked : s.Ranked numPigs) (hs' : gameStep rands s step = some s') : s'.CountsCatches := by
  cases step with
  | race timeInterval draws =>
    rw [gameStep] at hs'
    split_ifs at hs'
    obtain ⟨⟨pigs, l⟩, hrun, rfl⟩ := Option.map_eq_some_iff.mp hs'
    obtain ⟨-, hcounts, hcatches⟩ := runPiggies_runs hrun
    refine ⟨?_, fun j hj => hj.elim PigAt.noConfusion PigAt.noConfusion⟩
    intro i
    rw [hcatches]
    exact (hcounts i).trans (h.counted i)
  | pig pastEnd => exact h.pig hranked hs'
  | feeder timeout =>
    obtain ⟨hat, -, hpigs⟩ := Game.feeder_ranked hs'
    obtain ⟨hevents, -⟩ := Game.feeder_fed hs'
    constructor
    · rw [hpigs, hevents]
      exact h.counted
    · rw [hpigs, hat]
      exact h.rank

end Counts

/-- In every run of the two threads at most five apples are caught, and the count of every pig
is the number of those that it caught. -/
theorem race_run_applesCaught (rands : ℕ → ℕ) (numPigs : ℕ) (hnum : 0 < numPigs)
    (piggyAppleCatcher : ℤ) (steps : List GameStep) (s : Game)
    (hrun : runFrom (gameStep rands) (Game.start numPigs piggyAppleCatcher) steps = some s) :
    (catches s.events).length ≤ 5 ∧
      ∀ i, (s.pigs.getD i Piggy.zero).numApplesCaught = (catches s.events).count i := by
  have hstart : (Game.start numPigs piggyAppleCatcher).Ranked numPigs :=
    ⟨List.length_replicate, fun h => absurd rfl h⟩
  have hkept : (s.Fed ∧ s.Ranked numPigs) ∧ s.CountsCatches := by
    apply runFrom_invariant_of_step _
      ⟨⟨start_fed hnum piggyAppleCatcher, hstart⟩, start_countsCatches numPigs piggyAppleCatcher⟩
      hrun
    intro s step s' h hs'
    exact ⟨gameStep_fed hnum h.1 hs', gameStep_countsCatches h.2 h.1.2 hs'⟩
  exact ⟨hkept.1.1.caught, hkept.2.counted⟩

/-- One pig that catches the first apple. -/
theorem race_run_applesCaught_example :
    ∃ s, runFrom (gameStep fun _ => 2) (Game.start 1 0) firstAppleCaught = some s ∧
      catches s.events = [0] ∧ (s.pigs.getD 0 Piggy.zero).numApplesCaught = 1 := by
  have hrun : (runFrom (gameStep fun _ => 2) (Game.start 1 0) firstAppleCaught).any
      (fun s => catches s.events = [0]) := by decide +kernel
  obtain ⟨s, hs, hcatches⟩ := (Option.any_eq_true _ _).mp hrun
  have hcounts := (race_run_applesCaught (fun _ => 2) 1 (by decide) 0 firstAppleCaught s hs).2 0
  rw [of_decide_eq_true hcatches] at hcounts
  exact ⟨s, hs, of_decide_eq_true hcatches, hcounts⟩

end MorningProjects.Gopiggy
