import MorningProjects.Gopiggy.Race
import MorningProjects.Library.Runs

/-!
# The bonus for a caught apple

An apple that is caught gives its catcher three steps at maximal speed. Once five
apples are gone the catch test is skipped, and its last answer is used again in
every round. As long as no skipped test has a catcher for an answer, every run
of the two threads grants at most three bonus steps for each apple, and only to
the pig that caught the last one.
-/
namespace MorningProjects.Gopiggy
open Library

/-! ### What has to hold -/

def RaceEvent.isBonus : RaceEvent → Bool
  | .bonus _ => true
  | .caught _ => false

def bonusSteps (events : List RaceEvent) : ℕ := events.countP RaceEvent.isBonus

def applesCaught (events : List RaceEvent) : ℕ := events.countP (! RaceEvent.isBonus ·)

def lastCatcher : List RaceEvent → Option ℕ
  | [] => none
  | .caught i :: _ => some i
  | .bonus _ :: events => lastCatcher events

def GrantedToCatcher : List RaceEvent → Prop
  | [] => True
  | .caught _ :: events => GrantedToCatcher events
  | .bonus i :: events => lastCatcher events = some i ∧ GrantedToCatcher events

structure Game.BonusEarned (s : Game) : Prop where
  bounded : bonusSteps s.events ≤ 3 * applesCaught s.events
  granted : GrantedToCatcher s.events

/-- The condition on a step: the catch test is not skipped while its last answer is a pig. -/
def Game.Meets (s : Game) : GameStep → Prop
  | .pig _ => s.pigAt = .testIndex → 5 ≤ s.appleIndexAvailable → s.piggyAppleCatcher = -1
  | .race _ _ | .feeder _ => True

instance (s : Game) (step : GameStep) : Decidable (s.Meets step) :=
  match step with
  | .pig _ => inferInstanceAs
      (Decidable (s.pigAt = .testIndex → 5 ≤ s.appleIndexAvailable → s.piggyAppleCatcher = -1))
  | .race _ _ | .feeder _ => isTrue trivial

section Events

variable (i : ℕ) (events : List RaceEvent)

@[simp] theorem bonusSteps_bonus : bonusSteps (.bonus i :: events) = bonusSteps events + 1 :=
  List.countP_cons_of_pos rfl

@[simp] theorem bonusSteps_caught : bonusSteps (.caught i :: events) = bonusSteps events :=
  List.countP_cons_of_neg Bool.false_ne_true

@[simp] theorem applesCaught_bonus : applesCaught (.bonus i :: events) = applesCaught events :=
  List.countP_cons_of_neg Bool.false_ne_true

@[simp] theorem applesCaught_caught :
    applesCaught (.caught i :: events) = applesCaught events + 1 :=
  List.countP_cons_of_pos rfl

end Events

/-! ### The accounts of a lap -/

/-- Bonus steps granted and still to grant are paid for by apples caught, and the catcher of
the last apple, should there be steps left, is the pig noted as the catcher. -/
structure Lap.Paid (indexAppleCatcher : ℤ) (l : Lap) : Prop where
  nonneg : 0 ≤ l.appleBonus
  credit : bonusSteps l.events + l.appleBonus ≤ 3 * applesCaught l.events
  holder : 0 < l.appleBonus → ∃ i : ℕ, indexAppleCatcher = i ∧ lastCatcher l.events = some i
  granted : GrantedToCatcher l.events

section Lap

variable {rands : ℕ → ℕ} {indexAppleCatcher timeInterval : ℤ} {l l' : Lap}

theorem Lap.Paid.chooseSpeed (rands : ℕ → ℕ) (h : l.Paid indexAppleCatcher) (i rand : ℕ) :
    (chooseSpeed rands indexAppleCatcher i rand l).2.Paid indexAppleCatcher := by
  rw [Gopiggy.chooseSpeed]
  by_cases hno : indexAppleCatcher ≠ i ∨ 0 = l.appleBonus
  · rw [if_pos hno]
    exact h
  · obtain ⟨hcatcher, hbonus⟩ := not_or.mp hno
    have hpos : 0 < l.appleBonus := lt_of_le_of_ne h.nonneg hbonus
    obtain ⟨j, hj, hlast⟩ := h.holder hpos
    obtain rfl : j = i := by
      rw [hj, ne_eq, not_not] at hcatcher
      exact_mod_cast hcatcher
    have hcredit := h.credit
    rw [if_neg hno, if_pos hpos]
    constructor
    · change 0 ≤ l.appleBonus - 1
      omega
    · simp only [bonusSteps_bonus, applesCaught_bonus]
      push_cast
      omega
    · exact fun _ => ⟨j, hj, hlast⟩
    · exact ⟨hlast, h.granted⟩

theorem Lap.Paid.runPiggy (h : l.Paid indexAppleCatcher) {i : ℕ} {draw : Draw} {p p' : Piggy}
    (hrun : runPiggy rands indexAppleCatcher timeInterval i draw l p = some (p', l')) :
    l'.Paid indexAppleCatcher := by
  have hchosen := Lap.Paid.chooseSpeed rands h i draw.rand
  rw [Gopiggy.runPiggy] at hrun
  dsimp only at hrun
  split_ifs at hrun
  · cases hrun
    exact ⟨hchosen.nonneg, hchosen.credit, hchosen.holder, hchosen.granted⟩
  · cases hrun
    exact hchosen
  · cases hrun
    exact h
  · cases hrun
    exact h

theorem Lap.Paid.runPiggies (h : l.Paid indexAppleCatcher) {draws : ℕ → Draw} {i : ℕ}
    {ps ps' : List Piggy}
    (hrun : runPiggies rands indexAppleCatcher timeInterval draws i ps l = some (ps', l')) :
    l'.Paid indexAppleCatcher := by
  induction ps generalizing i l ps' with
  | nil =>
    cases hrun
    exact h
  | cons p ps ih =>
    obtain ⟨⟨p', l1⟩, hp, hrun⟩ := Option.bind_eq_some_iff.mp hrun
    obtain ⟨⟨ps1, l2⟩, hps, heq⟩ := Option.map_eq_some_iff.mp hrun
    cases heq
    exact ih (h.runPiggy hp) hps

end Lap

/-! ### The accounts of a race -/

/-- The answer of the catch test waits to be rewarded. -/
def Game.Pending (s : Game) : Prop := s.pigAt = .award ∧ s.piggyAppleCatcher ≠ -1

/-- The invariant: the accounts of the last lap, and of a catch not yet rewarded. -/
structure Game.Kept (s : Game) : Prop where
  nonneg : 0 ≤ s.appleBonus
  credit : bonusSteps s.events + s.appleBonus ≤ 3 * applesCaught s.events
  holder : ¬ s.Pending → 0 < s.appleBonus →
    ∃ i : ℕ, s.indexAppleCatcher = i ∧ lastCatcher s.events = some i
  granted : GrantedToCatcher s.events
  pending : s.Pending → (∃ i : ℕ, s.piggyAppleCatcher = i ∧ lastCatcher s.events = some i) ∧
    (bonusSteps s.events : ℤ) + 3 ≤ 3 * applesCaught s.events

section Step

variable {rands : ℕ → ℕ} {s s' : Game}

theorem Game.not_pending_of_ne (h : s.pigAt ≠ .award) : ¬ s.Pending := fun hp => h hp.1

theorem start_kept (numPigs : ℕ) (piggyAppleCatcher : ℤ) :
    (Game.start numPigs piggyAppleCatcher).Kept where
  nonneg := le_refl 0
  credit := le_refl 0
  holder _ hpos := absurd hpos (lt_irrefl 0)
  granted := trivial
  pending hp := absurd hp.1 PigAt.noConfusion

theorem Game.Kept.bonusEarned (h : s.Kept) : s.BonusEarned := by
  refine ⟨?_, h.granted⟩
  have hnonneg := h.nonneg
  have hcredit := h.credit
  omega

theorem Game.Kept.of_not_pending (h : s.Kept) (hs : ¬ s.Pending) (hs' : ¬ s'.Pending)
    (hbonus : s'.appleBonus = s.appleBonus) (hevents : s'.events = s.events)
    (hindex : s'.indexAppleCatcher = s.indexAppleCatcher) : s'.Kept where
  nonneg := by
    rw [hbonus]
    exact h.nonneg
  credit := by
    rw [hbonus, hevents]
    exact h.credit
  holder _ hpos := by
    rw [hbonus] at hpos
    rw [hevents, hindex]
    exact h.holder hs hpos
  granted := by
    rw [hevents]
    exact h.granted
  pending hp := absurd hp hs'

theorem Game.Kept.race (h : s.Kept) (hat : s.pigAt = .race) {timeInterval : ℤ} {draws : ℕ → Draw}
    (hs' : s.race rands timeInterval draws = some s') : s'.Kept := by
  obtain ⟨⟨pigs, l⟩, hrun, rfl⟩ := Option.map_eq_some_iff.mp hs'
  have hno : ¬ s.Pending := Game.not_pending_of_ne (by rw [hat]; decide)
  have hpaid : Lap.Paid s.indexAppleCatcher ⟨s.numPiggyFinished, s.appleBonus, s.events⟩ :=
    ⟨h.nonneg, h.credit, h.holder hno, h.granted⟩
  have hl := hpaid.runPiggies hrun
  exact ⟨hl.nonneg, hl.credit, fun _ => hl.holder, hl.granted,
    fun hp => absurd hp.1 PigAt.noConfusion⟩

/-- A catch pays for three steps, which its reward makes ready. -/
theorem Game.Kept.take (h : s.Kept) {i : ℕ} (hat : s.pigAt = .take i) {pastEnd : ℤ}
    (hs' : s.pig pastEnd = some s') : s'.Kept := by
  rw [Game.pig, hat] at hs'
  cases hs'
  have hnonneg := h.nonneg
  have hcredit := h.credit
  constructor
  · exact h.nonneg
  · simp only [Game.returnCatcher, bonusSteps_caught, applesCaught_caught]
    push_cast
    omega
  · intro hno
    refine absurd ⟨rfl, ?_⟩ hno
    simp only [Game.returnCatcher]
    omega
  · exact h.granted
  · refine fun _ => ⟨⟨_, rfl, rfl⟩, ?_⟩
    simp only [Game.returnCatcher, bonusSteps_caught, applesCaught_caught]
    push_cast
    omega

theorem Game.Kept.award (h : s.Kept) (hat : s.pigAt = .award) {pastEnd : ℤ}
    (hs' : s.pig pastEnd = some s') : s'.Kept := by
  rw [Game.pig, hat] at hs'
  obtain rfl := Option.some.inj hs'
  have hat' : (if s.numPiggyFinished < s.pigs.length then PigAt.race else .finished) ≠ .award := by
    split_ifs <;> exact PigAt.noConfusion
  by_cases hcatcher : -1 ≠ s.piggyAppleCatcher
  · obtain ⟨hlast, hcredit⟩ := h.pending ⟨hat, hcatcher.symm⟩
    rw [Game.reward, if_pos hcatcher]
    exact ⟨Int.natCast_nonneg 3, hcredit, fun _ _ => hlast, h.granted, fun hp => absurd hp.1 hat'⟩
  · have hno : ¬ s.Pending := fun hp => hcatcher hp.2.symm
    rw [Game.reward, if_neg hcatcher]
    exact h.of_not_pending hno (fun hp => hat' hp.1) rfl rfl rfl

/-- The other steps of the pig thread leave the accounts as they are, and only a skipped test
leaves an answer to be rewarded, the one from before. -/
theorem Game.pig_idle (haward : s.pigAt ≠ .award) (htake : ∀ i, s.pigAt ≠ .take i) {pastEnd : ℤ}
    (hs' : s.pig pastEnd = some s') :
    s'.appleBonus = s.appleBonus ∧ s'.events = s.events ∧
      s'.indexAppleCatcher = s.indexAppleCatcher ∧
      (s'.Pending → s.pigAt = .testIndex ∧ 5 ≤ s.appleIndexAvailable ∧
        s'.piggyAppleCatcher = s.piggyAppleCatcher) := by
  rw [Game.pig] at hs'
  cases hat : s.pigAt with
  | award => exact absurd hat haward
  | take i => exact absurd hat (htake i)
  | race =>
    rw [hat] at hs'
    cases hs'
  | finished =>
    rw [hat] at hs'
    cases hs'
  | testIndex =>
    simp only [hat] at hs'
    split_ifs at hs' with hindex
    · cases hs'
      exact ⟨rfl, rfl, rfl, fun hp => absurd hp.1 PigAt.noConfusion⟩
    · cases hs'
      exact ⟨rfl, rfl, rfl, fun _ => ⟨rfl, not_lt.mp hindex, rfl⟩⟩
  | testReleased =>
    simp only [hat] at hs'
    split_ifs at hs'
    · cases hs'
      exact ⟨rfl, rfl, rfl, fun hp => absurd hp.1 PigAt.noConfusion⟩
    · cases hs'
      exact ⟨rfl, rfl, rfl, fun hp => absurd hp.1 PigAt.noConfusion⟩
    · cases hs'
      exact ⟨rfl, rfl, rfl, fun hp => absurd rfl hp.2⟩
  | measure =>
    simp only [hat] at hs'
    split_ifs at hs'
    · cases hs'
      exact ⟨rfl, rfl, rfl, fun hp => absurd hp.1 PigAt.noConfusion⟩
    · cases hs'
      exact ⟨rfl, rfl, rfl, fun hp => absurd rfl hp.2⟩
  | release =>
    simp only [hat] at hs'
    cases hs'
    exact ⟨rfl, rfl, rfl, fun hp => absurd rfl hp.2⟩
  | look i =>
    simp only [hat] at hs'
    split_ifs at hs'
    · cases hs'
      exact ⟨rfl, rfl, rfl, fun hp => absurd hp.1 PigAt.noConfusion⟩
    · cases hs'
      exact ⟨rfl, rfl, rfl, fun hp => absurd hp.1 PigAt.noConfusion⟩
    · cases hs'
      exact ⟨rfl, rfl, rfl, fun hp => absurd rfl hp.2⟩
  | grab i =>
    simp only [hat] at hs'
    split_ifs at hs'
    · cases hs'
      exact ⟨rfl, rfl, rfl, fun hp => absurd hp.1 PigAt.noConfusion⟩
    · cases hs'
      exact ⟨rfl, rfl, rfl, fun hp => absurd hp.1 PigAt.noConfusion⟩

theorem Game.Kept.pig (h : s.Kept) {pastEnd : ℤ} (hmeet : s.Meets (.pig pastEnd))
    (hs' : s.pig pastEnd = some s') : s'.Kept := by
  by_cases haward : s.pigAt = .award
  · exact h.award haward hs'
  by_cases htake : ∃ i, s.pigAt = .take i
  · obtain ⟨i, hat⟩ := htake
    exact h.take hat hs'
  obtain ⟨hbonus, hevents, hindex, hpending⟩ :=
    Game.pig_idle haward (fun i hat => htake ⟨i, hat⟩) hs'
  refine h.of_not_pending (Game.not_pending_of_ne haward) ?_ hbonus hevents hindex
  intro hp
  obtain ⟨hat, hskip, hcatcher⟩ := hpending hp
  exact hp.2 (hcatcher.trans (hmeet hat hskip))

theorem Game.feeder_frame {timeout : Bool} (hs' : s.feeder timeout = some s') :
    s'.appleBonus = s.appleBonus ∧ s'.events = s.events ∧
      s'.indexAppleCatcher = s.indexAppleCatcher ∧ s'.pigAt = s.pigAt ∧
      s'.piggyAppleCatcher = s.piggyAppleCatcher := by
  rw [Game.feeder] at hs'
  cases hat : s.feederAt with
  | waitCatch =>
    simp only [hat] at hs'
    split_ifs at hs'
    · cases hs'
      exact ⟨rfl, rfl, rfl, rfl, rfl⟩
    · cases hs'
      exact ⟨rfl, rfl, rfl, rfl, rfl⟩
  | exited =>
    simp only [hat] at hs'
    cases hs'
  | _ =>
    simp only [hat] at hs'
    cases hs'
    exact ⟨rfl, rfl, rfl, rfl, rfl⟩

theorem Game.Kept.feeder (h : s.Kept) {timeout : Bool} (hs' : s.feeder timeout = some s') :
    s'.Kept := by
  obtain ⟨hbonus, hevents, hindex, hat, hcatcher⟩ := Game.feeder_frame hs'
  have hpending : s'.Pending ↔ s.Pending := by rw [Game.Pending, Game.Pending, hat, hcatcher]
  constructor
  · rw [hbonus]
    exact h.nonneg
  · rw [hbonus, hevents]
    exact h.credit
  · rw [hbonus, hevents, hindex, hpending]
    exact h.holder
  · rw [hevents]
    exact h.granted
  · rw [hpending, hcatcher, hevents]
    exact h.pending

theorem gameStep_kept {step : GameStep} (h : s.Kept) (hmeet : s.Meets step)
    (hs' : gameStep rands s step = some s') : s'.Kept := by
  cases step with
  | race timeInterval draws =>
    rw [gameStep] at hs'
    split_ifs at hs' with hat
    exact h.race hat hs'
  | pig pastEnd => exact h.pig hmeet hs'
  | feeder timeout => exact h.feeder hs'

end Step

/-- In every run of the two threads in which no catch test is skipped after a catch, there are
at most three bonus steps for each apple caught so far, all of them granted to the pig that
had caught the last one. -/
theorem race_run_bonusEarned (rands : ℕ → ℕ) (numPigs : ℕ) (piggyAppleCatcher : ℤ)
    (steps : List GameStep)
    (hmeet : Along (gameStep rands) Game.Meets (Game.start numPigs piggyAppleCatcher) steps) :
    Along (gameStep rands) (fun s _ => s.BonusEarned) (Game.start numPigs piggyAppleCatcher)
        steps ∧
      ∀ s, runFrom (gameStep rands) (Game.start numPigs piggyAppleCatcher) steps = some s →
        s.BonusEarned := by
  have hstep : ∀ (s : Game) step s', s.Kept → s.Meets step → gameStep rands s step = some s' →
      s'.Kept := fun s step s' h hmeet hs' => gameStep_kept h hmeet hs'
  have hstart := start_kept numPigs piggyAppleCatcher
  constructor
  · exact along_of_invariant hstep (fun s _ h _ => h.bonusEarned) hstart hmeet
  · exact fun s hs => (runFrom_invariant hstep hstart hmeet hs).bonusEarned

/-! ### A race of one pig -/

/-- A round in which the pig draws `rand`, with its next steps up to the next round. -/
def roundOf (rand pigSteps : ℕ) : List GameStep :=
  .race 0 (fun _ => ⟨rand, 0⟩) :: List.replicate pigSteps (.pig 0)

/-- Rounds of speed 10 between two apples, and the release of the second one. -/
def roundsToApple (n : ℕ) : List GameStep :=
  (List.replicate n (roundOf 4 4)).flatten ++ roundOf 4 5

def appleDrops : List GameStep :=
  [false, false, true, false, false, false, false].map .feeder

/-- The feeder sees the release; the pig takes three slow rounds to the fallen apple, which
the feeder counts. -/
def appleCaught : List GameStep :=
  [.feeder false, .feeder false] ++ roundOf 0 3 ++ roundOf 0 3 ++ roundOf 0 6 ++
    List.replicate 4 (.feeder false)

def firstAppleCaught : List GameStep :=
  [.feeder false, .feeder false] ++ roundsToApple 7 ++ appleCaught ++
    (List.replicate 3 (roundOf 0 4)).flatten

theorem race_run_bonusEarned_example :
    (runFrom (gameStep fun _ => 2) (Game.start 1 0) firstAppleCaught).isSome ∧
      ∀ s, runFrom (gameStep fun _ => 2) (Game.start 1 0) firstAppleCaught = some s →
        s.BonusEarned :=
  ⟨by decide +kernel, (race_run_bonusEarned (fun _ => 2) 1 0 firstAppleCaught
    (by decide +kernel)).2⟩

def lastAppleCaught : List GameStep :=
  [.feeder false, .feeder false] ++ roundsToApple 7 ++ appleDrops ++
    (List.replicate 3 (roundsToApple 9 ++ appleDrops)).flatten ++ roundsToApple 9 ++ appleCaught ++
    (List.replicate 4 (roundOf 0 2)).flatten

/-- After the last apple the bonus is renewed every round. -/
theorem race_run_not_bonusEarned :
    ∃ s, runFrom (gameStep fun _ => 2) (Game.start 1 0) lastAppleCaught = some s ∧
      ¬ s.BonusEarned := by
  have hrun : (runFrom (gameStep fun _ => 2) (Game.start 1 0) lastAppleCaught).any
      (fun s => 3 * applesCaught s.events < bonusSteps s.events) := by decide +kernel
  obtain ⟨s, hs, hlt⟩ := (Option.any_eq_true _ _).mp hrun
  exact ⟨s, hs, fun h => absurd h.bounded (not_le.mpr (of_decide_eq_true hlt))⟩

end MorningProjects.Gopiggy
