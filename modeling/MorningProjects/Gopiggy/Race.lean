import Mathlib.Tactic

/-!
# The race of Gopiggy.c

The pig thread moves all pigs once a round and then tries to catch the apple; the
feeder thread counts the apples. They share `f_apple_released` and
`f_apple_index_available`, and every access to one of these is a step of its own.
The rest of a round has no access to them and is one step. `user_interface`, which
ranks the pigs in the same array, takes its steps in `Gopiggy.Interface` only.
-/
namespace MorningProjects.Gopiggy

def minSpeed : ℤ := 6
def maxSpeed : ℤ := 15
def trackLength : ℤ := 600

/-- `f_apple_locations`; what lies behind its end is not known. -/
def appleLocation (pastEnd : ℤ) (i : ℕ) : ℤ := [100, 200, 300, 400, 500].getD i pastEnd

/-- The fields of `piggy_t` that the race reads. -/
structure Piggy where
  averageSpeed : ℤ
  currentPosition : ℤ
  timePeriod : ℤ
  numApplesCaught : ℤ
  deriving DecidableEq, Repr

def Piggy.zero : Piggy := ⟨0, 0, 0, 0⟩

inductive RaceEvent where
  | bonus (piggy : ℕ)
  | caught (piggy : ℕ)
  deriving DecidableEq, Repr

inductive PigAt where
  /-- At the head of the loop over the rounds. -/
  | race
  /-- Before `f_apple_index_available < 5`. -/
  | testIndex
  /-- Before `true != f_apple_released`. -/
  | testReleased
  /-- Before the distance of the leading pig to the apple is taken. -/
  | measure
  /-- Before `f_apple_released = true`. -/
  | release
  /-- Before the distance of a ranked pig to the fallen apple is taken. -/
  | look (i : ℕ)
  /-- Before `true == f_apple_released`. -/
  | grab (i : ℕ)
  /-- Before `f_apple_released = false`. -/
  | take (i : ℕ)
  /-- Before `-1 != piggy_apple_catcher`. -/
  | award
  | finished
  deriving DecidableEq, Repr

inductive FeederAt where
  | loop
  /-- Before `f_apple_released = false`. -/
  | reset
  /-- In the loop that waits for the release of an apple. -/
  | awaitRelease
  /-- Before the test of the loop that waits for its catch. -/
  | checkCatch
  /-- In `pthread_cond_timedwait`. -/
  | waitCatch
  /-- Behind that loop. -/
  | drop
  /-- Before `f_apple_index_available++`. -/
  | count
  | stop
  | exited
  deriving DecidableEq, Repr

/-- The shared variables, the pigs by rank and by number, `apple_fall_count`, the local
variables of the two threads, and what happened so far, the latest first. -/
structure Game where
  appleReleased : Bool
  appleIndexAvailable : ℕ
  pigs : List Piggy
  rankedPigs : List ℕ
  appleFallCount : ℕ
  numPiggyFinished : ℕ
  piggyAppleCatcher : ℤ
  indexAppleCatcher : ℤ
  appleBonus : ℤ
  pigAt : PigAt
  appleDropped : Bool
  feederAt : FeederAt
  events : List RaceEvent
  deriving DecidableEq, Repr

/-- The start of a race of `numPigs` pigs; `piggy_apple_catcher` has no initial value. -/
def Game.start (numPigs : ℕ) (piggyAppleCatcher : ℤ) : Game :=
  ⟨false, 0, List.replicate numPigs Piggy.zero, [], 0, 0, piggyAppleCatcher, -1, 0, .race, false,
    .loop, []⟩

def Game.position (s : Game) (rank : ℕ) : ℤ :=
  (s.pigs.getD (s.rankedPigs.getD rank 0) Piggy.zero).currentPosition

/-! ### A round -/

/-- A result of `rand()`, and the seconds since `f_start_time` should the pig finish. -/
structure Draw where
  rand : ℕ
  elapsed : ℤ

def speedCap (rands : ℕ → ℕ) (i : ℕ) : ℕ := 4 + rands i % 3

/-- The local variables of `pig` that the loop over the pigs changes, and the events. -/
structure Lap where
  numPiggyFinished : ℕ
  appleBonus : ℤ
  events : List RaceEvent

def chooseSpeed (rands : ℕ → ℕ) (indexAppleCatcher : ℤ) (i : ℕ) (rand : ℕ) (l : Lap) : ℤ × Lap :=
  if indexAppleCatcher ≠ i ∨ 0 = l.appleBonus then
    (minSpeed + (rand % speedCap rands i : ℕ), l)
  else
    (maxSpeed, { l with
      appleBonus := if l.appleBonus > 0 then l.appleBonus - 1 else l.appleBonus
      events := .bonus i :: l.events })

/-- The body of the loop over the pigs; a division by zero has no result. -/
def runPiggy (rands : ℕ → ℕ) (indexAppleCatcher timeInterval : ℤ) (i : ℕ) (draw : Draw) (l : Lap)
    (p : Piggy) : Option (Piggy × Lap) :=
  if trackLength ≠ p.currentPosition then
    let (speed, l) := chooseSpeed rands indexAppleCatcher i draw.rand l
    let currentPosition := p.currentPosition + speed
    if currentPosition ≥ trackLength then
      let timePeriod := draw.elapsed + 1
      if timePeriod = 0 then none
      else some ({ p with
        currentPosition := trackLength, timePeriod := timePeriod,
        averageSpeed := trackLength.tdiv timePeriod },
          { l with numPiggyFinished := l.numPiggyFinished + 1 })
    else some ({ p with currentPosition := currentPosition }, l)
  else if 0 = p.averageSpeed then
    if timeInterval = 0 then none
    else some ({ p with averageSpeed := trackLength.tdiv timeInterval }, l)
  else some (p, l)

/-- The loop over the pigs, from pig `i` on. -/
def runPiggies (rands : ℕ → ℕ) (indexAppleCatcher timeInterval : ℤ) (draws : ℕ → Draw) :
    ℕ → List Piggy → Lap → Option (List Piggy × Lap)
  | _, [], l => some ([], l)
  | i, p :: ps, l =>
    (runPiggy rands indexAppleCatcher timeInterval i (draws i) l p).bind fun (p, l) =>
      (runPiggies rands indexAppleCatcher timeInterval draws (i + 1) ps l).map fun (ps, l) =>
        (p :: ps, l)

/-- One round of `rank_piggy`: pig `i` goes in front of the last ranked pigs it has passed. -/
def rankOne (pigs : List Piggy) (ranked : List ℕ) (i : ℕ) : List ℕ :=
  let behind (index : ℕ) : Bool :=
    (pigs.getD index Piggy.zero).currentPosition < (pigs.getD i Piggy.zero).currentPosition
  (ranked.reverse.dropWhile behind).reverse ++ i :: (ranked.reverse.takeWhile behind).reverse

def rankPiggy (pigs : List Piggy) : List ℕ := (List.range pigs.length).foldl (rankOne pigs) []

/-- The loop over the pigs and `rank_piggy`. -/
def Game.race (rands : ℕ → ℕ) (timeInterval : ℤ) (draws : ℕ → Draw) (s : Game) : Option Game :=
  (runPiggies rands s.indexAppleCatcher timeInterval draws 0 s.pigs
    ⟨s.numPiggyFinished, s.appleBonus, s.events⟩).map fun (pigs, l) =>
      { s with
        pigs := pigs, rankedPigs := rankPiggy pigs, numPiggyFinished := l.numPiggyFinished,
        appleBonus := l.appleBonus, events := l.events, pigAt := .testIndex }

/-! ### The threads -/

/-- The return of `try_catch_apple`. -/
def Game.returnCatcher (s : Game) (appleCatcher : ℤ) : Game :=
  { s with piggyAppleCatcher := appleCatcher, pigAt := .award }

/-- The pig that caught an apple runs at maximal speed for three rounds. -/
def Game.reward (s : Game) : Game :=
  if -1 ≠ s.piggyAppleCatcher then
    { s with indexAppleCatcher := s.piggyAppleCatcher, appleBonus := 3 }
  else s

/-- The pig thread between two rounds. -/
def Game.pig (pastEnd : ℤ) (s : Game) : Option Game :=
  match s.pigAt with
  | .race | .finished => none
  | .testIndex =>
    some { s with pigAt := if s.appleIndexAvailable < 5 then .testReleased else .award }
  | .testReleased =>
    if s.appleReleased = false then some { s with pigAt := .measure }
    else
      let s := { s with appleFallCount := s.appleFallCount + 1 }
      some (if s.appleFallCount = 3 then { s with pigAt := .look 0 } else s.returnCatcher (-1))
  | .measure =>
    let distanceToApple := appleLocation pastEnd s.appleIndexAvailable - s.position 0
    some (if distanceToApple < 25 ∧ distanceToApple > 0 then { s with pigAt := .release }
      else s.returnCatcher (-1))
  | .release =>
    some ({ s with appleReleased := true, appleFallCount := 0 }.returnCatcher (-1))
  | .look i =>
    if i < s.pigs.length then
      let distanceToApple := appleLocation pastEnd s.appleIndexAvailable - s.position i
      some { s with
        pigAt := if distanceToApple ≥ 0 ∧ distanceToApple < 4 then .grab i else .look (i + 1) }
    else some (s.returnCatcher (-1))
  | .grab i => some { s with pigAt := if s.appleReleased = true then .take i else .look (i + 1) }
  | .take i =>
    let appleCatcher := s.rankedPigs.getD i 0
    some ({ s with
      appleReleased := false
      pigs := s.pigs.modify appleCatcher fun p =>
        { p with numApplesCaught := p.numApplesCaught + 1 }
      events := .caught appleCatcher :: s.events }.returnCatcher appleCatcher)
  | .award =>
    some { s.reward with
      pigAt := if s.numPiggyFinished < s.pigs.length then .race else .finished }

/-- The feeder thread; its timed wait ends with a timeout or not. -/
def Game.feeder (timeout : Bool) (s : Game) : Option Game :=
  match s.feederAt with
  | .loop => some { s with feederAt := if s.appleIndexAvailable < 5 then .reset else .stop }
  | .reset => some { s with appleReleased := false, feederAt := .awaitRelease }
  | .awaitRelease =>
    some { s with feederAt := if s.appleReleased = false then .awaitRelease else .checkCatch }
  | .checkCatch => some { s with feederAt := if s.appleReleased = true then .waitCatch else .drop }
  | .waitCatch =>
    some (if timeout then { s with appleDropped := true, feederAt := .drop }
      else { s with feederAt := .checkCatch })
  | .drop =>
    some { s with
      appleReleased := if s.appleDropped = true then false else s.appleReleased
      feederAt := .count }
  | .count =>
    some { s with
      appleIndexAvailable := s.appleIndexAvailable + 1, appleDropped := false, feederAt := .loop }
  | .stop => some { s with appleReleased := false, feederAt := .exited }
  | .exited => none

inductive GameStep where
  | race (timeInterval : ℤ) (draws : ℕ → Draw)
  | pig (pastEnd : ℤ)
  | feeder (timeout : Bool)

def gameStep (rands : ℕ → ℕ) (s : Game) : GameStep → Option Game
  | .race timeInterval draws => if s.pigAt = .race then s.race rands timeInterval draws else none
  | .pig pastEnd => s.pig pastEnd
  | .feeder timeout => s.feeder timeout

end MorningProjects.Gopiggy
