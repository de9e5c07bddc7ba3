import MorningProjects.Gopiggy.Ranking

/-!
# The ranking on the screen

`user_interface` calls `rank_piggy` once a second for the screen, on the same `f_ranked_pigs` as
the pig thread and without a lock. With every access to the array a step of its own, the first
number it writes may be the one that `try_catch_apple` takes for the leading pig's. The leader is
right as long as no write of the interface falls between the ranking and the look at the leader.
-/
namespace MorningProjects.Gopiggy
open Library

/-! ### A call of rank_piggy -/

inductive RankAt where
  | idle
  /-- Before `i < f_num_pigs`. -/
  | outer (i : ℕ)
  /-- Before `j > 0` and `index = f_ranked_pigs[j - 1]`. -/
  | inner (i j : ℕ)
  /-- Before the read of `f_pigs[index].current_position`. -/
  | other (i j index : ℕ)
  /-- Before its comparison with `f_pigs[i].current_position`. -/
  | test (i j : ℕ) (position : ℤ)
  /-- Before the read of `f_ranked_pigs[j - 1]` that is to move. -/
  | read (i j : ℕ)
  /-- Before the write of `f_ranked_pigs[j]`. -/
  | shift (i j moved : ℕ)
  /-- Before `f_ranked_pigs[j] = i`. -/
  | place (i j : ℕ)
  deriving DecidableEq, Repr

def RankAt.writes : RankAt → Bool
  | .shift .. | .place .. => true
  | _ => false

/-- One access of `rank_piggy`; none outside of an array. -/
def rankStep (pigs : List Piggy) (rankedPigs : List ℕ) : RankAt → Option (List ℕ × RankAt)
  | .idle => none
  | .outer i => some (rankedPigs, if i < pigs.length then .inner i i else .idle)
  | .inner i 0 => some (rankedPigs, .place i 0)
  | .inner i (j + 1) => rankedPigs[j]?.map fun index => (rankedPigs, .other i (j + 1) index)
  | .other i j index => pigs[index]?.map fun p => (rankedPigs, .test i j p.currentPosition)
  | .test i j position =>
    pigs[i]?.map fun p =>
      (rankedPigs, if position < p.currentPosition then .read i j else .place i j)
  | .read i j => rankedPigs[j - 1]?.map fun moved => (rankedPigs, .shift i j moved)
  | .shift i j moved => (setAt j moved rankedPigs).map fun a => (a, .inner i (j - 1))
  | .place i j => (setAt j i rankedPigs).map fun a => (a, .outer (i + 1))

/-! ### The three threads -/

inductive RoundAt where
  /-- Before `time_interval` is taken. -/
  | time
  /-- Before pig `i` runs. -/
  | move (timeInterval : ℤ) (i : ℕ)
  | rank (rankAt : RankAt)
  deriving DecidableEq, Repr

/-- The race with `f_ranked_pigs` in the place of its ranking. -/
structure Play where
  game : Game
  round : RoundAt
  interface : RankAt
  deriving DecidableEq, Repr

def Play.start (numPigs : ℕ) (rankedPigs : List ℕ) (piggyAppleCatcher : ℤ) : Play :=
  ⟨{ Game.start numPigs piggyAppleCatcher with rankedPigs := rankedPigs }, .time, .idle⟩

inductive PlayStep where
  | time (timeInterval : ℤ)
  | move (draw : Draw)
  | rank
  | pig (pastEnd : ℤ)
  | feeder (timeout : Bool)
  | interface

def Game.move (rands : ℕ → ℕ) (timeInterval : ℤ) (i : ℕ) (draw : Draw) (s : Game) : Option Game :=
  s.pigs[i]?.bind fun p =>
    (runPiggy rands s.indexAppleCatcher timeInterval i draw
      ⟨s.numPiggyFinished, s.appleBonus, s.events⟩ p).map fun (p, l) =>
        { s with
          pigs := s.pigs.set i p, numPiggyFinished := l.numPiggyFinished
          appleBonus := l.appleBonus, events := l.events }

def Play.rank (rankAt : RankAt) (s : Play) : Option Play :=
  (rankStep s.game.pigs s.game.rankedPigs rankAt).map fun (rankedPigs, rankAt) =>
    if rankAt = .idle then
      { s with
        game := { s.game with rankedPigs := rankedPigs, pigAt := .testIndex }, round := .time }
    else { s with game := { s.game with rankedPigs := rankedPigs }, round := .rank rankAt }

/-- `user_interface` calls `rank_piggy`, or makes an access of the call. -/
def Play.show (s : Play) : Option Play :=
  if s.interface = .idle then some { s with interface := .outer 0 }
  else (rankStep s.game.pigs s.game.rankedPigs s.interface).map fun (rankedPigs, rankAt) =>
    { s with game := { s.game with rankedPigs := rankedPigs }, interface := rankAt }

def playStep (rands : ℕ → ℕ) (s : Play) : PlayStep → Option Play
  | .time timeInterval =>
    if s.game.pigAt = .race ∧ s.round = .time then some { s with round := .move timeInterval 0 }
    else none
  | .move draw =>
    match s.round with
    | .move timeInterval i =>
      if i < s.game.pigs.length then
        (s.game.move rands timeInterval i draw).map fun game =>
          { s with game := game, round := .move timeInterval (i + 1) }
      else some { s with round := .rank (.outer 0) }
    | .time | .rank _ => none
  | .rank =>
    match s.round with
    | .rank rankAt => s.rank rankAt
    | .time | .move .. => none
  | .pig pastEnd => (s.game.pig pastEnd).map fun game => { s with game := game }
  | .feeder timeout => (s.game.feeder timeout).map fun game => { s with game := game }
  | .interface => s.show

/-- The pig thread ranks the pigs, or has not looked at the leader yet. -/
def Play.inUse (s : Play) : Bool :=
  match s.round with
  | .rank _ => true
  | .time | .move .. =>
    s.game.pigAt = .testIndex ∨ s.game.pigAt = .testReleased ∨ s.game.pigAt = .measure

/-- The interface writes nothing while the pig thread uses the ranking. -/
def Apart (s : Play) : PlayStep → Prop
  | .interface => s.interface.writes = true → s.inUse = false
  | _ => True

instance (s : Play) (step : PlayStep) : Decidable (Apart s step) :=
  match step with
  | .interface => inferInstanceAs (Decidable (s.interface.writes = true → s.inUse = false))
  | .time _ | .move _ | .rank | .pig _ | .feeder _ => isTrue trivial

/-! ### A call by itself -/

/-- `f_pigs[index]` is behind `f_pigs[i]`. -/
def behind (pigs : List Piggy) (i index : ℕ) : Option Bool :=
  pigs[index]?.bind fun p => pigs[i]?.map fun q => p.currentPosition < q.currentPosition

def rankFrom (pigs : List Piggy) (i : ℕ) (rankedPigs : List ℕ) : Option (List ℕ) :=
  (List.range' i (pigs.length - i)).foldlM (fun rankedPigs i =>
    insertFrom (behind pigs i) i i rankedPigs) rankedPigs

def shiftRest (pigs : List Piggy) (i j moved : ℕ) (rankedPigs : List ℕ) : Option (List ℕ) :=
  (setAt j moved rankedPigs).bind fun rankedPigs =>
    (insertFrom (behind pigs i) (j - 1) i rankedPigs).bind (rankFrom pigs (i + 1))

def testRest (pigs : List Piggy) (i j : ℕ) (rankedPigs : List ℕ) (passed : Bool) :
    Option (List ℕ) :=
  if passed then rankedPigs[j - 1]?.bind fun moved => shiftRest pigs i j moved rankedPigs
  else (setAt j i rankedPigs).bind (rankFrom pigs (i + 1))

/-- What the rest of a call of `rank_piggy` makes of the array. -/
def rankRest (pigs : List Piggy) (rankedPigs : List ℕ) : RankAt → Option (List ℕ)
  | .idle => some rankedPigs
  | .outer i => rankFrom pigs i rankedPigs
  | .inner i j => (insertFrom (behind pigs i) j i rankedPigs).bind (rankFrom pigs (i + 1))
  | .other i j index => (behind pigs i index).bind (testRest pigs i j rankedPigs)
  | .test i j position =>
    pigs[i]?.bind fun p => testRest pigs i j rankedPigs (position < p.currentPosition)
  | .read i j => testRest pigs i j rankedPigs true
  | .shift i j moved => shiftRest pigs i j moved rankedPigs
  | .place i j => testRest pigs i j rankedPigs false

section Rest

variable {pigs : List Piggy} {rankedPigs rankedPigs' : List ℕ} {rankAt rankAt' : RankAt}

/-- An access leaves what the call comes to. -/
theorem rankRest_of_rankStep (h : rankStep pigs rankedPigs rankAt = some (rankedPigs', rankAt')) :
    rankRest pigs rankedPigs' rankAt' = rankRest pigs rankedPigs rankAt := by
  cases rankAt with
  | idle => cases h
  | outer i =>
    cases h
    by_cases hi : i < pigs.length
    · have hrange : pigs.length - i = pigs.length - (i + 1) + 1 := by omega
      rw [if_pos hi, rankRest, rankRest, rankFrom, hrange, List.range'_succ, List.foldlM_cons]
      rfl
    · have hrange : pigs.length - i = 0 := by omega
      rw [if_neg hi, rankRest, rankRest, rankFrom, hrange]
      rfl
  | inner i j =>
    cases j with
    | zero =>
      cases h
      rfl
    | succ j =>
      obtain ⟨index, hindex, heq⟩ := Option.map_eq_some_iff.mp h
      cases heq
      rw [rankRest, rankRest, insertFrom, shiftUp, hindex, Option.bind_some]
      cases behind pigs i index with
      | none => rfl
      | some passed =>
        rw [Option.bind_some, Option.bind_some, testRest]
        cases passed with
        | false => rfl
        | true =>
          rw [if_pos rfl, if_pos rfl, Nat.add_sub_cancel, hindex, Option.bind_some, shiftRest]
          cases setAt (j + 1) index rankedPigs with
          | none => rfl
          | some a => rfl
  | other i j index =>
    obtain ⟨p, hp, heq⟩ := Option.map_eq_some_iff.mp h
    cases heq
    rw [rankRest, rankRest, behind, hp, Option.bind_some]
    cases pigs[i]? with
    | none => rfl
    | some q => rfl
  | test i j position =>
    obtain ⟨p, hp, heq⟩ := Option.map_eq_some_iff.mp h
    cases heq
    rw [rankRest, hp, Option.bind_some]
    split_ifs with hbehind
    · rw [rankRest, decide_eq_true hbehind]
    · rw [rankRest, decide_eq_false hbehind]
  | read i j =>
    obtain ⟨moved, hmoved, heq⟩ := Option.map_eq_some_iff.mp h
    cases heq
    rw [rankRest, rankRest, testRest, if_pos rfl, hmoved]
    rfl
  | shift i j moved =>
    obtain ⟨a, ha, heq⟩ := Option.map_eq_some_iff.mp h
    cases heq
    rw [rankRest, rankRest, shiftRest, ha]
    rfl
  | place i j =>
    obtain ⟨a, ha, heq⟩ := Option.map_eq_some_iff.mp h
    cases heq
    rw [rankRest, rankRest, testRest, if_neg Bool.false_ne_true, ha]
    rfl

theorem length_setAt {α : Type*} {i : ℕ} {x : α} {a a' : List α} (h : setAt i x a = some a') :
    a'.length = a.length := by
  rw [setAt] at h
  split_ifs at h
  cases h
  exact List.length_set

theorem rankStep_frame (h : rankStep pigs rankedPigs rankAt = some (rankedPigs', rankAt')) :
    rankedPigs'.length = rankedPigs.length ∧
      (rankAt.writes = false → rankedPigs' = rankedPigs) := by
  cases rankAt with
  | idle => cases h
  | outer i =>
    cases h
    exact ⟨rfl, fun _ => rfl⟩
  | inner i j =>
    cases j with
    | zero =>
      cases h
      exact ⟨rfl, fun _ => rfl⟩
    | succ j =>
      obtain ⟨index, -, heq⟩ := Option.map_eq_some_iff.mp h
      cases heq
      exact ⟨rfl, fun _ => rfl⟩
  | other i j index =>
    obtain ⟨p, -, heq⟩ := Option.map_eq_some_iff.mp h
    cases heq
    exact ⟨rfl, fun _ => rfl⟩
  | test i j position =>
    obtain ⟨p, -, heq⟩ := Option.map_eq_some_iff.mp h
    cases heq
    exact ⟨rfl, fun _ => rfl⟩
  | read i j =>
    obtain ⟨moved, -, heq⟩ := Option.map_eq_some_iff.mp h
    cases heq
    exact ⟨rfl, fun _ => rfl⟩
  | shift i j moved =>
    obtain ⟨a, ha, heq⟩ := Option.map_eq_some_iff.mp h
    cases heq
    exact ⟨length_setAt ha, fun hreads => absurd hreads Bool.true_eq_false.mp⟩
  | place i j =>
    obtain ⟨a, ha, heq⟩ := Option.map_eq_some_iff.mp h
    cases heq
    exact ⟨length_setAt ha, fun hreads => absurd hreads Bool.true_eq_false.mp⟩

theorem behind_eq {i j : ℕ} (hi : i < pigs.length) (hj : j < pigs.length) :
    behind pigs i j = some (decide (behindKey pigs i < behindKey pigs j)) := by
  have hposition : ∀ k < pigs.length,
      ∃ p, pigs[k]? = some p ∧ behindKey pigs k = -p.currentPosition := by
    intro k hk
    refine ⟨pigs[k], List.getElem?_eq_getElem hk, ?_⟩
    rw [behindKey, Ranking.position, List.getD_eq_getElem?_getD, List.getElem?_eq_getElem hk,
      Option.getD_some]
  obtain ⟨p, hp, hkey⟩ := hposition i hi
  obtain ⟨q, hq, hkey'⟩ := hposition j hj
  rw [behind, hq, Option.bind_some, hp, Option.map_some, hkey, hkey']
  exact congrArg some (decide_eq_decide.mpr neg_lt_neg_iff.symm)

/-- A whole call ranks the pigs, whatever the array held. -/
theorem rankFrom_zero (hroom : pigs.length ≤ rankedPigs.length) :
    rankFrom pigs 0 rankedPigs =
      some (rankBy (behindKey pigs) pigs.length ++ rankedPigs.drop pigs.length) := by
  have hranked := foldlM_insertFrom_eq (f := id)
    (fun _ hi _ hj => behind_eq hi (hj.trans hi)) hroom
  rwa [List.map_id, List.range_eq_range'] at hranked

end Rest

/-! ### The leader -/

def Play.RanksBy (s : Play) (rankAt : RankAt) : Prop :=
  ∃ held, rankRest s.game.pigs s.game.rankedPigs rankAt =
    some (rankBy (behindKey s.game.pigs) s.game.pigs.length ++ held)

/-- The invariant: a call of the pig thread's own comes to the ranking, which then stays. -/
structure Play.Sound (numPigs : ℕ) (s : Play) : Prop where
  length : s.game.pigs.length = numPigs
  room : numPigs ≤ s.game.rankedPigs.length
  racing : s.round ≠ .time → s.game.pigAt = .race
  ranking : ∀ rankAt, s.round = .rank rankAt → s.RanksBy rankAt
  ranked : s.round = .time → s.inUse = true → s.RanksBy .idle

section Step

variable {rands : ℕ → ℕ} {numPigs : ℕ} {s s' : Play}

theorem Game.move_frame {timeInterval : ℤ} {i : ℕ} {draw : Draw} {s s' : Game}
    (hs' : s.move rands timeInterval i draw = some s') :
    s'.pigs.length = s.pigs.length ∧ s'.rankedPigs = s.rankedPigs ∧ s'.pigAt = s.pigAt := by
  obtain ⟨p, -, hrun⟩ := Option.bind_eq_some_iff.mp hs'
  obtain ⟨⟨p', l⟩, -, rfl⟩ := Option.map_eq_some_iff.mp hrun
  exact ⟨List.length_set, rfl, rfl⟩

theorem Game.pig_uses {pastEnd : ℤ} {s s' : Game} (hs' : s.pig pastEnd = some s')
    (huse : s'.pigAt = .testIndex ∨ s'.pigAt = .testReleased ∨ s'.pigAt = .measure) :
    s.pigAt = .testIndex ∨ s.pigAt = .testReleased ∨ s.pigAt = .measure := by
  rw [Game.pig] at hs'
  cases hat : s.pigAt with
  | testIndex => exact Or.inl rfl
  | testReleased => exact Or.inr (Or.inl rfl)
  | measure => exact Or.inr (Or.inr rfl)
  | race =>
    rw [hat] at hs'
    cases hs'
  | finished =>
    rw [hat] at hs'
    cases hs'
  | award =>
    simp only [hat] at hs'
    split_ifs at hs'
    all_goals
      cases hs'
      rcases huse with huse | huse | huse
      all_goals cases huse
  | _ =>
    simp only [hat] at hs'
    try split_ifs at hs'
    all_goals
      cases hs'
      rcases huse with huse | huse | huse
      all_goals cases huse

theorem Play.RanksBy.idle (h : s.RanksBy .idle) {game : Game}
    (hlength : game.pigs.length = s.game.pigs.length)
    (hkey : behindKey game.pigs = behindKey s.game.pigs)
    (hranked : game.rankedPigs = s.game.rankedPigs) :
    Play.RanksBy { s with game := game } .idle := by
  obtain ⟨held, hheld⟩ := h
  refine ⟨held, ?_⟩
  dsimp only
  rw [hkey, hlength, ← hheld, hranked]
  rfl

theorem Play.Sound.congr (h : s.Sound numPigs) (hpigs : s'.game.pigs = s.game.pigs)
    (hranked : s'.game.rankedPigs = s.game.rankedPigs) (hat : s'.game.pigAt = s.game.pigAt)
    (hround : s'.round = s.round) : s'.Sound numPigs := by
  have huse : s'.inUse = s.inUse := by rw [Play.inUse, Play.inUse, hround, hat]
  have hranks : ∀ rankAt, s'.RanksBy rankAt ↔ s.RanksBy rankAt := by
    intro rankAt
    rw [Play.RanksBy, Play.RanksBy, hpigs, hranked]
  refine ⟨by rw [hpigs, h.length], by rw [hranked]; exact h.room, ?_, ?_, ?_⟩
  · rw [hround, hat]
    exact h.racing
  · intro rankAt hrank
    exact (hranks rankAt).mpr (h.ranking rankAt (hround ▸ hrank))
  · intro htime hused
    exact (hranks .idle).mpr (h.ranked (hround ▸ htime) (huse ▸ hused))

theorem playStep_sound {step : PlayStep} (h : s.Sound numPigs) (hapart : Apart s step)
    (hs' : playStep rands s step = some s') : s'.Sound numPigs := by
  obtain ⟨hlength, hroom, hracing, hranking, hranked⟩ := id h
  cases step with
  | time timeInterval =>
    rw [playStep] at hs'
    split_ifs at hs' with hat
    cases hs'
    exact ⟨hlength, hroom, fun _ => hat.1, by rintro _ ⟨⟩, by rintro ⟨⟩⟩
  | move draw =>
    rw [playStep] at hs'
    cases hround : s.round with
    | time =>
      rw [hround] at hs'
      cases hs'
    | rank rankAt =>
      rw [hround] at hs'
      cases hs'
    | move timeInterval i =>
      have hat := hracing (by rw [hround]; exact RoundAt.noConfusion)
      simp only [hround] at hs'
      split_ifs at hs' with hi
      · obtain ⟨game, hgame, rfl⟩ := Option.map_eq_some_iff.mp hs'
        obtain ⟨hpigs, harray, hpigAt⟩ := Game.move_frame hgame
        exact ⟨hpigs.trans hlength, by rwa [harray], fun _ => hpigAt.trans hat, by rintro _ ⟨⟩,
          by rintro ⟨⟩⟩
      · cases hs'
        refine ⟨hlength, hroom, fun _ => hat, ?_, by rintro ⟨⟩⟩
        rintro _ ⟨⟩
        exact ⟨_, rankFrom_zero (hlength.trans_le hroom)⟩
  | rank =>
    rw [playStep] at hs'
    cases hround : s.round with
    | time =>
      rw [hround] at hs'
      cases hs'
    | move timeInterval i =>
      rw [hround] at hs'
      cases hs'
    | rank rankAt =>
      have hat := hracing (by rw [hround]; exact RoundAt.noConfusion)
      simp only [hround] at hs'
      obtain ⟨⟨rankedPigs, rankAt'⟩, hstep, rfl⟩ := Option.map_eq_some_iff.mp hs'
      obtain ⟨held, hheld⟩ := hranking rankAt hround
      rw [← rankRest_of_rankStep hstep] at hheld
      have hroom' := (rankStep_frame hstep).1.symm ▸ hroom
      dsimp only
      split_ifs with hidle
      · subst hidle
        exact ⟨hlength, hroom', fun hround => absurd rfl hround, by rintro _ ⟨⟩,
          fun _ _ => ⟨held, hheld⟩⟩
      · refine ⟨hlength, hroom', fun _ => hat, ?_, by rintro ⟨⟩⟩
        rintro _ ⟨⟩
        exact ⟨held, hheld⟩
  | pig pastEnd =>
    obtain ⟨game, hgame, rfl⟩ := Option.map_eq_some_iff.mp hs'
    obtain ⟨hat, harray, hpigs, hkey⟩ := Game.pig_ranked hgame
    have hround : s.round = .time := by_contra fun hround => hat (hracing hround)
    refine ⟨hpigs.trans hlength, by rwa [harray], fun hne => absurd hround hne, ?_, ?_⟩
    · rintro rankAt hrank
      rw [hround] at hrank
      cases hrank
    · intro _ huse
      refine (hranked hround ?_).idle hpigs hkey harray
      rw [Play.inUse, hround, decide_eq_true_eq] at huse ⊢
      exact Game.pig_uses hgame huse
  | feeder timeout =>
    obtain ⟨game, hgame, rfl⟩ := Option.map_eq_some_iff.mp hs'
    obtain ⟨hat, harray, hpigs⟩ := Game.feeder_ranked hgame
    exact h.congr hpigs harray hat rfl
  | interface =>
    rw [playStep, Play.show] at hs'
    split_ifs at hs' with hidle
    · cases hs'
      exact h.congr rfl rfl rfl rfl
    · obtain ⟨⟨rankedPigs, rankAt⟩, hstep, rfl⟩ := Option.map_eq_some_iff.mp hs'
      obtain ⟨hlength', hreads⟩ := rankStep_frame hstep
      cases hwrites : s.interface.writes with
      | false => exact h.congr rfl (hreads hwrites) rfl rfl
      | true =>
        have hfree := hapart hwrites
        refine ⟨hlength, hlength'.symm ▸ hroom, hracing, ?_, ?_⟩
        · intro rankAt' hround
          rw [Play.inUse, show s.round = .rank rankAt' from hround] at hfree
          cases hfree
        · intro _ huse
          exact absurd (hfree.symm.trans huse) Bool.false_ne_true

theorem Play.start_sound {held : List ℕ} (hheld : numPigs ≤ held.length)
    (piggyAppleCatcher : ℤ) : (Play.start numPigs held piggyAppleCatcher).Sound numPigs where
  length := List.length_replicate
  room := hheld
  racing hround := absurd rfl hround
  ranking := by rintro _ ⟨⟩
  ranked := by rintro - ⟨⟩

theorem Play.Sound.leads (h : s.Sound numPigs) (hnum : 0 < numPigs)
    (hat : s.game.pigAt = .measure) :
    Ranking.IsRanking (Ranking.FurtherAhead s.game.pigs) numPigs
      (s.game.rankedPigs.map fun i : ℕ => (i : ℤ)) ∧
    Ranking.Leads s.game.pigs (s.game.rankedPigs.getD 0 0) := by
  have hround : s.round = .time := by
    by_contra hround
    have hrace := h.racing hround
    rw [hat] at hrace
    cases hrace
  have huse : s.inUse = true := by
    rw [Play.inUse, hround]
    exact decide_eq_true (Or.inr (Or.inr hat))
  obtain ⟨held, hheld⟩ := h.ranked hround huse
  obtain rfl := h.length
  have harray : s.game.rankedPigs =
      rankBy (behindKey s.game.pigs) s.game.pigs.length ++ held := Option.some.inj hheld
  constructor
  · rw [harray, List.map_append]
    exact Ranking.isRanking_rankBy (fun _ _ => furtherAhead_of_ahead) _ _
  · have hranked : Game.Ranked s.game.pigs.length
        { s.game with rankedPigs := rankBy (behindKey s.game.pigs) s.game.pigs.length } :=
      ⟨rfl, fun _ => rfl⟩
    rw [harray, List.getD_eq_getElem?_getD, List.getElem?_append_left (by rwa [length_rankBy]),
      ← List.getD_eq_getElem?_getD]
    exact hranked.leads hnum (by rw [hat]; exact PigAt.noConfusion)

end Step

/-- Both rankings order the numbers of the pigs from whatever the array held. Where the interface
writes nothing while the pig thread uses the ranking, `try_catch_apple` finds it whole and the
leading pig first. -/
theorem rankPiggy_ranks (numPigs : ℕ) (hnum : 0 < numPigs) (pigs : List Piggy)
    (rankedPigs : List ℤ) (hpigs : numPigs ≤ pigs.length) (hranked : numPigs ≤ rankedPigs.length) :
    (∃ rankedPigs', Ranking.rankPiggy numPigs pigs rankedPigs = some rankedPigs' ∧
      Ranking.IsRanking (Ranking.FurtherAhead pigs) numPigs rankedPigs') ∧
    (∃ rankedPigs', Ranking.rankPiggyFinal numPigs pigs rankedPigs = some rankedPigs' ∧
      Ranking.IsRanking (Ranking.FasterThan pigs) numPigs rankedPigs') ∧
    ∀ (rands : ℕ → ℕ) (piggyAppleCatcher : ℤ) (held : List ℕ), numPigs ≤ held.length →
      ∀ (steps : List PlayStep) (s : Play),
        Along (playStep rands) Apart (.start numPigs held piggyAppleCatcher) steps →
        runFrom (playStep rands) (.start numPigs held piggyAppleCatcher) steps = some s →
        s.game.pigAt = .measure →
          Ranking.IsRanking (Ranking.FurtherAhead s.game.pigs) numPigs
            (s.game.rankedPigs.map fun i : ℕ => (i : ℤ)) ∧
          Ranking.Leads s.game.pigs (s.game.rankedPigs.getD 0 0) := by
  obtain ⟨hrank, hfinal⟩ := Ranking.exists_rankings hpigs hranked
  refine ⟨hrank, hfinal, ?_⟩
  intro rands piggyAppleCatcher held hheld steps s hapart hrun hat
  have hstep : ∀ s step s', Play.Sound numPigs s → Apart s step →
      playStep rands s step = some s' → Play.Sound numPigs s' :=
    fun _ _ _ h hapart hs' => playStep_sound h hapart hs'
  have hs := runFrom_invariant hstep (Play.start_sound hheld piggyAppleCatcher) hapart hrun
  exact hs.leads hnum hat

/-- A round of two pigs up to the look at the leader: pig 1 is the faster one. The interface makes
so many accesses before the ranking, and so many behind it. -/
def firstRound (before behind : ℕ) : List PlayStep :=
  [PlayStep.time 0, .move ⟨0, 0⟩, .move ⟨1, 0⟩] ++ List.replicate before PlayStep.interface ++
    [PlayStep.move ⟨0, 0⟩] ++ List.replicate 12 PlayStep.rank ++ [PlayStep.pig 0, .pig 0] ++
    List.replicate behind PlayStep.interface

/-- The interface ranks the pigs before the pig thread does, and then begins again. -/
theorem rankPiggy_ranks_two :
    (∃ rankedPigs', Ranking.rankPiggy 2 [⟨0, 9, 5, 0⟩, ⟨0, 9, 3, 0⟩, ⟨0, 0, 0, 0⟩] [7, -1, 4] =
        some rankedPigs' ∧
      Ranking.IsRanking (Ranking.FurtherAhead [⟨0, 9, 5, 0⟩, ⟨0, 9, 3, 0⟩, ⟨0, 0, 0, 0⟩]) 2
        rankedPigs') ∧
    (∃ rankedPigs', Ranking.rankPiggyFinal 2 [⟨0, 9, 5, 0⟩, ⟨0, 9, 3, 0⟩, ⟨0, 0, 0, 0⟩] [7, -1, 4] =
        some rankedPigs' ∧
      Ranking.IsRanking (Ranking.FasterThan [⟨0, 9, 5, 0⟩, ⟨0, 9, 3, 0⟩, ⟨0, 0, 0, 0⟩]) 2
        rankedPigs') ∧
    ∃ s, runFrom (playStep fun _ => 0) (.start 2 [0, 0, 0] (-1)) (firstRound 13 3) = some s ∧
      Ranking.IsRanking (Ranking.FurtherAhead s.game.pigs) 2
        (s.game.rankedPigs.map fun i : ℕ => (i : ℤ)) ∧
      Ranking.Leads s.game.pigs (s.game.rankedPigs.getD 0 0) := by
  obtain ⟨hrank, hfinal, hruns⟩ := rankPiggy_ranks 2 (by decide)
    [⟨0, 9, 5, 0⟩, ⟨0, 9, 3, 0⟩, ⟨0, 0, 0, 0⟩] [7, -1, 4] (by decide) (by decide)
  have hmeasures : (runFrom (playStep fun _ => 0) (.start 2 [0, 0, 0] (-1)) (firstRound 13 3)).map
      (fun s => s.game.pigAt) = some .measure := by decide +kernel
  obtain ⟨s, hs, hat⟩ := Option.map_eq_some_iff.mp hmeasures
  exact ⟨hrank, hfinal, s, hs, hruns (fun _ => 0) (-1) [0, 0, 0] (by decide) (firstRound 13 3) s
    (by decide +kernel) hs hat⟩

/-- The first write of the interface's call makes pig 0 the leader. -/
theorem rankPiggy_not_leads :
    ∃ s, runFrom (playStep fun _ => 0) (.start 2 [0, 0, 0] (-1)) (firstRound 0 4) = some s ∧
      s.game.pigAt = .measure ∧ s.game.rankedPigs.take 2 = [0, 0] ∧
      Ranking.position s.game.pigs 0 < Ranking.position s.game.pigs 1 ∧
      ¬ Ranking.Leads s.game.pigs (s.game.rankedPigs.getD 0 0) := by
  refine ⟨_, rfl, rfl, rfl, by decide, fun h => ?_⟩
  exact absurd (h.2 1 (by decide)) (by decide)

end MorningProjects.Gopiggy
