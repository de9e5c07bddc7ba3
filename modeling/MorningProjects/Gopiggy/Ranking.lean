import MorningProjects.Gopiggy.Race
import MorningProjects.Library.Runs
import MorningProjects.Library.ShiftInsert

/-!
# The ranking of the pigs

`rank_piggy` and `rank_piggy_final` insert the numbers of the pigs one by one into
`f_ranked_pigs`, in place. What the array held before is overwritten before it is read,
and between the pig thread and the feeder the pig that `try_catch_apple` takes for the
leading one is a leading one.
-/
namespace MorningProjects.Gopiggy
open Library

namespace Ranking

def piggyOf (pigs : List Piggy) (index : ℤ) : Option Piggy :=
  if 0 ≤ index then pigs[index.toNat]? else none

def passed (behind : Piggy → Piggy → Bool) (pigs : List Piggy) (i : ℕ) (index : ℤ) : Option Bool :=
  (piggyOf pigs index).bind fun p => (piggyOf pigs i).map fun q => behind p q

/-- The loops of both rankings; an access outside of an array has no result. -/
def rankWith (behind : Piggy → Piggy → Bool) (numPigs : ℕ) (pigs : List Piggy)
    (rankedPigs : List ℤ) : Option (List ℤ) :=
  (List.range numPigs).foldlM (fun rankedPigs i =>
    insertFrom (passed behind pigs i) i i rankedPigs) rankedPigs

def rankPiggy : ℕ → List Piggy → List ℤ → Option (List ℤ) :=
  rankWith fun p q => p.currentPosition < q.currentPosition

def rankPiggyFinal : ℕ → List Piggy → List ℤ → Option (List ℤ) :=
  rankWith fun p q => p.timePeriod > q.timePeriod

/-! ### What has to hold -/

/-- The first entries are the numbers of the pigs, each once, in the given order. -/
def IsRanking (ahead : ℕ → ℕ → Prop) (numPigs : ℕ) (rankedPigs : List ℤ) : Prop :=
  ∃ ranking : List ℕ, rankedPigs.take numPigs = ranking.map (fun i : ℕ => (i : ℤ)) ∧
    ranking.Perm (List.range numPigs) ∧ ranking.Pairwise ahead

def position (pigs : List Piggy) (i : ℕ) : ℤ := (pigs.getD i Piggy.zero).currentPosition

def finishTime (pigs : List Piggy) (i : ℕ) : ℤ := (pigs.getD i Piggy.zero).timePeriod

/-- The larger position comes first, and of equal positions the smaller number. -/
def FurtherAhead (pigs : List Piggy) (i j : ℕ) : Prop :=
  position pigs j < position pigs i ∨ position pigs i = position pigs j ∧ i < j

/-- The shorter time comes first, and of equal times the smaller number. -/
def FasterThan (pigs : List Piggy) (i j : ℕ) : Prop :=
  finishTime pigs i < finishTime pigs j ∨ finishTime pigs i = finishTime pigs j ∧ i < j

def Leads (pigs : List Piggy) (leader : ℕ) : Prop :=
  leader < pigs.length ∧ ∀ i < pigs.length, position pigs i ≤ position pigs leader

/-! ### The rankings in the array -/

section Array

variable {behind : Piggy → Piggy → Bool} {numPigs : ℕ} {pigs : List Piggy}
  {rankedPigs : List ℤ}

theorem piggyOf_natCast {i : ℕ} (hi : i < pigs.length) :
    piggyOf pigs i = some (pigs.getD i Piggy.zero) := by
  rw [piggyOf, if_pos (Int.natCast_nonneg i), Int.toNat_natCast, List.getElem?_eq_getElem hi,
    List.getD_eq_getElem?_getD, List.getElem?_eq_getElem hi, Option.getD_some]

def keyOf (key : Piggy → ℤ) (pigs : List Piggy) (i : ℕ) : ℤ := key (pigs.getD i Piggy.zero)

theorem passed_natCast {key : Piggy → ℤ}
    (hbehind : ∀ p q, behind p q = decide (key q < key p)) {i j : ℕ}
    (hi : i < pigs.length) (hj : j < pigs.length) :
    passed behind pigs i j = some (decide (keyOf key pigs i < keyOf key pigs j)) := by
  rw [passed, piggyOf_natCast hj, Option.bind_some, piggyOf_natCast hi, Option.map_some, hbehind]
  rfl

theorem rankWith_eq (key : Piggy → ℤ) (hbehind : ∀ p q, behind p q = decide (key q < key p))
    (hpigs : numPigs ≤ pigs.length) (hranked : numPigs ≤ rankedPigs.length) :
    rankWith behind numPigs pigs rankedPigs =
      some ((rankBy (keyOf key pigs) numPigs).map (fun i : ℕ => (i : ℤ)) ++
        rankedPigs.drop numPigs) :=
  foldlM_insertFrom_eq
    (fun _ hi _ hj => passed_natCast hbehind (hi.trans_le hpigs) ((hj.trans hi).trans_le hpigs))
    hranked

theorem isRanking_rankBy {key : ℕ → ℤ} {ahead : ℕ → ℕ → Prop}
    (hahead : ∀ i j, Ahead key i j → ahead i j) (numPigs : ℕ) (held : List ℤ) :
    IsRanking ahead numPigs ((rankBy key numPigs).map (fun i : ℕ => (i : ℤ)) ++ held) := by
  refine ⟨rankBy key numPigs, ?_, rankBy_perm _ _, (rankBy_pairwise _ _).imp fun h => hahead _ _ h⟩
  rw [List.take_left']
  rw [List.length_map, length_rankBy]

theorem exists_isRanking (key : Piggy → ℤ) {ahead : ℕ → ℕ → Prop}
    (hbehind : ∀ p q, behind p q = decide (key q < key p))
    (hahead : ∀ i j, Ahead (keyOf key pigs) i j → ahead i j)
    (hpigs : numPigs ≤ pigs.length) (hranked : numPigs ≤ rankedPigs.length) :
    ∃ rankedPigs', rankWith behind numPigs pigs rankedPigs = some rankedPigs' ∧
      IsRanking ahead numPigs rankedPigs' :=
  ⟨_, rankWith_eq key hbehind hpigs hranked, isRanking_rankBy hahead numPigs _⟩

end Array

end Ranking

/-! ### The leading pig -/

/-- The order of `rank_piggy`: the larger position has the smaller key. -/
def behindKey (pigs : List Piggy) (i : ℕ) : ℤ := -Ranking.position pigs i

theorem furtherAhead_of_ahead {pigs : List Piggy} {i j : ℕ} (h : Ahead (behindKey pigs) i j) :
    Ranking.FurtherAhead pigs i j := by
  rcases h with hlt | ⟨heq, hlt⟩
  · exact Or.inl (neg_lt_neg_iff.mp hlt)
  · exact Or.inr ⟨neg_inj.mp heq, hlt⟩

theorem rankOne_eq (pigs : List Piggy) (rankedPigs : List ℕ) (i : ℕ) :
    rankOne pigs rankedPigs i =
      insertPassing (behindKey pigs i < behindKey pigs ·) i rankedPigs := by
  have htest : (fun index => decide ((pigs.getD index Piggy.zero).currentPosition <
      (pigs.getD i Piggy.zero).currentPosition)) = (behindKey pigs i < behindKey pigs ·) := by
    funext index
    exact decide_eq_decide.mpr neg_lt_neg_iff.symm
  rw [rankOne, htest]
  rfl

theorem rankPiggy_eq (pigs : List Piggy) :
    rankPiggy pigs = rankBy (behindKey pigs) pigs.length := by
  rw [rankPiggy, rankBy]
  congr 1
  funext rankedPigs i
  exact rankOne_eq pigs rankedPigs i

/-- The array begins with the list of the race. -/
theorem Ranking.rankPiggy_eq_race (pigs : List Piggy) {rankedPigs : List ℤ}
    (h : pigs.length ≤ rankedPigs.length) :
    Ranking.rankPiggy pigs.length pigs rankedPigs =
      some ((Gopiggy.rankPiggy pigs).map (fun i : ℕ => (i : ℤ)) ++
        rankedPigs.drop pigs.length) := by
  rw [Ranking.rankPiggy, rankWith_eq (fun p => -p.currentPosition) _ le_rfl h,
    rankPiggy_eq]
  · rfl
  · intro p q
    exact decide_eq_decide.mpr neg_lt_neg_iff.symm

structure Game.Ranked (numPigs : ℕ) (s : Game) : Prop where
  length : s.pigs.length = numPigs
  ranked : s.pigAt ≠ .race → s.rankedPigs = rankBy (behindKey s.pigs) numPigs

section Step

variable {rands : ℕ → ℕ} {s s' : Game}

theorem behindKey_modify (pigs : List Piggy) (catcher : ℕ) :
    behindKey (pigs.modify catcher fun p => { p with numApplesCaught := p.numApplesCaught + 1 }) =
      behindKey pigs := by
  funext i
  rw [behindKey, behindKey, Ranking.position, Ranking.position, List.getD_eq_getElem?_getD,
    List.getD_eq_getElem?_getD, List.getElem?_modify]
  cases pigs[i]? with
  | none => split_ifs <;> rfl
  | some p => split_ifs <;> rfl

theorem Game.pig_ranked {pastEnd : ℤ} (hs' : s.pig pastEnd = some s') :
    s.pigAt ≠ .race ∧ s'.rankedPigs = s.rankedPigs ∧ s'.pigs.length = s.pigs.length ∧
      behindKey s'.pigs = behindKey s.pigs := by
  rw [Game.pig] at hs'
  cases hat : s.pigAt with
  | race =>
    rw [hat] at hs'
    cases hs'
  | finished =>
    rw [hat] at hs'
    cases hs'
  | take i =>
    rw [hat] at hs'
    cases hs'
    exact ⟨PigAt.noConfusion, rfl, List.length_modify _ _ _, behindKey_modify _ _⟩
  | award =>
    simp only [hat, Game.reward] at hs'
    cases hs'
    split_ifs
    all_goals exact ⟨PigAt.noConfusion, rfl, rfl, rfl⟩
  | _ =>
    simp only [hat] at hs'
    try split_ifs at hs'
    all_goals
      cases hs'
      exact ⟨PigAt.noConfusion, rfl, rfl, rfl⟩

theorem Game.feeder_ranked {timeout : Bool} (hs' : s.feeder timeout = some s') :
    s'.pigAt = s.pigAt ∧ s'.rankedPigs = s.rankedPigs ∧ s'.pigs = s.pigs := by
  rw [Game.feeder] at hs'
  cases hat : s.feederAt with
  | waitCatch =>
    simp only [hat] at hs'
    split_ifs at hs'
    · cases hs'
      exact ⟨rfl, rfl, rfl⟩
    · cases hs'
      exact ⟨rfl, rfl, rfl⟩
  | exited =>
    simp only [hat] at hs'
    cases hs'
  | _ =>
    simp only [hat] at hs'
    cases hs'
    exact ⟨rfl, rfl, rfl⟩

theorem runPiggies_length {indexAppleCatcher timeInterval : ℤ} {draws : ℕ → Draw} {i : ℕ}
    {ps ps' : List Piggy} {l l' : Lap}
    (hrun : runPiggies rands indexAppleCatcher timeInterval draws i ps l = some (ps', l')) :
    ps'.length = ps.length := by
  induction ps generalizing i l ps' with
  | nil =>
    cases hrun
    rfl
  | cons p ps ih =>
    obtain ⟨⟨p', l1⟩, -, hrun⟩ := Option.bind_eq_some_iff.mp hrun
    obtain ⟨⟨ps1, l2⟩, hps, heq⟩ := Option.map_eq_some_iff.mp hrun
    cases heq
    rw [List.length_cons, List.length_cons, ih hps]

theorem gameStep_ranked {numPigs : ℕ} {step : GameStep} (h : s.Ranked numPigs)
    (hs' : gameStep rands s step = some s') : s'.Ranked numPigs := by
  obtain ⟨hlength, hranked⟩ := h
  cases step with
  | race timeInterval draws =>
    rw [gameStep] at hs'
    split_ifs at hs'
    obtain ⟨⟨pigs, l⟩, hrun, rfl⟩ := Option.map_eq_some_iff.mp hs'
    have hpigs : pigs.length = numPigs := (runPiggies_length hrun).trans hlength
    refine ⟨hpigs, fun _ => ?_⟩
    rw [← hpigs]
    exact rankPiggy_eq pigs
  | pig pastEnd =>
    obtain ⟨hat, hframe, hpigs, hkey⟩ := Game.pig_ranked hs'
    refine ⟨hpigs.trans hlength, fun _ => ?_⟩
    rw [hframe, hkey]
    exact hranked hat
  | feeder timeout =>
    obtain ⟨hat, hframe, hpigs⟩ := Game.feeder_ranked hs'
    constructor
    · rw [hpigs]
      exact hlength
    · rw [hat, hframe, hpigs]
      exact hranked

end Step

theorem Game.Ranked.leads {numPigs : ℕ} {s : Game} (h : s.Ranked numPigs) (hnum : 0 < numPigs)
    (hat : s.pigAt ≠ .race) : Ranking.Leads s.pigs (s.rankedPigs.getD 0 0) := by
  obtain ⟨rfl, hranked⟩ := h
  rw [hranked hat]
  refine ⟨?_, fun i hi => ?_⟩
  · have hfirst : (rankBy (behindKey s.pigs) s.pigs.length).getD 0 0 ∈
        rankBy (behindKey s.pigs) s.pigs.length := by
      rw [List.getD_eq_getElem?_getD, List.getElem?_eq_getElem (by rwa [length_rankBy])]
      exact List.getElem_mem _
    exact lt_of_mem_rankBy hfirst
  · exact neg_le_neg_iff.mp (key_head_rankBy_le (behindKey s.pigs) hi 0)

/-- Both rankings order the numbers of the pigs from whatever the array held. -/
theorem Ranking.exists_rankings {numPigs : ℕ} {pigs : List Piggy} {rankedPigs : List ℤ}
    (hpigs : numPigs ≤ pigs.length) (hranked : numPigs ≤ rankedPigs.length) :
    (∃ rankedPigs', rankPiggy numPigs pigs rankedPigs = some rankedPigs' ∧
      IsRanking (FurtherAhead pigs) numPigs rankedPigs') ∧
    (∃ rankedPigs', rankPiggyFinal numPigs pigs rankedPigs = some rankedPigs' ∧
      IsRanking (FasterThan pigs) numPigs rankedPigs') := by
  constructor
  · apply exists_isRanking (fun p => -p.currentPosition) _ _ hpigs hranked
    · intro p q
      exact decide_eq_decide.mpr neg_lt_neg_iff.symm
    · exact fun _ _ => furtherAhead_of_ahead
  · apply exists_isRanking Piggy.timePeriod _ _ hpigs hranked
    · exact fun _ _ => rfl
    · exact fun _ _ h => h

end MorningProjects.Gopiggy
