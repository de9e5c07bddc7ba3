import MorningProjects.Tree.Distinct
import MorningProjects.Tree.RbBalance

/-!
# Which removals keep a red-black tree balanced

Along the way up from a freed black leaf every subtree handed back is one black
node short until `rebalance` settles it. With a sibling that `rebalance` can
mend it restores the colors; with any other it dereferences NULL or reports a
balance that is not there, and nothing above repairs that.
-/
namespace MorningProjects.Tree
open Library

variable {D : Type*} {compare : D → D → ℤ}

/-- What `tree_remove` hands back of a subtree that it has repaired, or left one black node
short. -/
structure Repaired (t : RbNode D) (short : Bool) (s : RbRemoval D) : Prop where
  noRedRed : NoRedRed s.node
  balanced : BlackBalanced s.node
  height : blackHeight t = blackHeight s.node + if short then 1 else 0
  flag : s.balanced = !short
  root : isRed t = false → isRed s.node = false

/-- What it hands back of a subtree that it could not repair. -/
def Broken (s : Option (RbRemoval D)) : Prop :=
  ∀ s', s = some s' → s'.balanced = true ∧ ¬ BlackBalanced s'.node

section Rebalance

variable {n : ℤ} {d : D} {c : UInt32} {l l' r r' : RbNode D}

/-- `rebalance` where the left side is one black node short and the sibling can be mended. -/
theorem rebalance_mended_left (hn : n ≤ 0) (ht : NoRedRed (.node d c l r))
    (hb : BlackBalanced (.node d c l r)) (hnl : NoRedRed l') (hbl : BlackBalanced l')
    (hheight : blackHeight l = blackHeight l' + 1) (hmend : Mendable n r) (disposed : List D) :
    ∃ t b, rebalance n (.node d c l' r) = some (t, b) ∧
      Repaired (.node d c l r) (!settles c r) ⟨t, disposed, b⟩ := by
  obtain ⟨-, hnr, hred⟩ := ht
  obtain ⟨-, hbr, hlr⟩ := hb
  cases r with
  | null => simp [hheight] at hlr
  | node sd sc sl sr =>
    obtain ⟨hnsl, hnsr, -⟩ := hnr
    obtain ⟨hbsl, hbsr, hss⟩ := hbr
    have hsc : sc ≠ red := hmend.1
    have hlow : blackHeight l' = blackHeight sl := by
      simp [hsc] at hlr
      omega
    by_cases hsr : isRed sr = true
    · -- the far nephew is red
      obtain ⟨rd, rl, rr, rfl⟩ := exists_red_of_isRed hsr
      obtain ⟨hnrl, hnrr, -⟩ := hnsr
      refine ⟨.node sd c (.node d black l' sl) (.node rd black rl rr), true,
        by simp [rebalance, hn, hsc, rbRotationRR, setColor], ?_, ?_, ?_, ?_, fun h => h⟩
      · exact ⟨⟨hnl, hnsl, by simp⟩, ⟨hnrl, hnrr, by simp⟩, by simp⟩
      · exact ⟨⟨hbl, hbsl, hlow⟩, hbsr, by simpa [hlow] using hss⟩
      · simp [settles, hheight]
      · simp [settles]
    · by_cases hsl : isRed sl = true
      · -- the near nephew is red
        obtain ⟨md, ml, mr, rfl⟩ := exists_red_of_isRed hsl
        obtain ⟨hnml, hnmr, hmred⟩ := hnsl
        obtain ⟨hbml, hbmr, hmlr⟩ := hbsl
        have hlowm : blackHeight l' = blackHeight ml := by simpa using hlow
        refine ⟨.node md c (.node d black l' ml) (.node sd black mr sr), true,
          by simp [rebalance, hn, hsc, hsr, rbRotationRL, rbRotationLL, rbRotationRR, setColor],
          ?_, ?_, ?_, ?_, fun h => h⟩
        · exact ⟨⟨hnl, hnml, by simp⟩, ⟨hnmr, hnsr, by simp⟩, by simp⟩
        · refine ⟨⟨hbl, hbml, hlowm⟩, ⟨hbmr, hbsr, ?_⟩, by simp [hlowm, hmlr]⟩
          simpa [hmlr] using hss
        · simp [settles, hheight]
        · simp [settles]
      · -- no red nephew: the sibling turns red and the node black
        refine ⟨.node d black l' (.node sd red sl sr), c == red,
          by simp [rebalance, hn, hsc, hsl, hsr], ?_, ?_, ?_, ?_, ?_⟩
        · exact ⟨hnl, ⟨hnsl, hnsr, fun _ => ⟨by simpa using hsl, by simpa using hsr⟩⟩, by simp⟩
        · exact ⟨hbl, ⟨hbsl, hbsr, hss⟩, by simpa using hlow⟩
        · by_cases hc : c = red
          · simp [settles, hc, hheight]
          · simp [settles, hc, hsl, hsr, hheight]
        · simp [settles, hsl, hsr]
        · simp

/-- The mirror case; here the sibling has no red child. -/
theorem rebalance_mended_right (hn : ¬ n ≤ 0) (ht : NoRedRed (.node d c l r))
    (hb : BlackBalanced (.node d c l r)) (hnr : NoRedRed r') (hbr : BlackBalanced r')
    (hheight : blackHeight r = blackHeight r' + 1) (hmend : Mendable n l) (disposed : List D) :
    ∃ t b, rebalance n (.node d c l r') = some (t, b) ∧
      Repaired (.node d c l r) (!settles c l) ⟨t, disposed, b⟩ := by
  obtain ⟨hnl, -, hred⟩ := ht
  obtain ⟨hbl, -, hlr⟩ := hb
  cases l with
  | null => simp [hheight] at hlr
  | node sd sc sl sr =>
    obtain ⟨hnsl, hnsr, -⟩ := hnl
    obtain ⟨hbsl, hbsr, hss⟩ := hbl
    have hsc : sc ≠ red := hmend.1
    obtain ⟨hsl, hsr⟩ := hmend.2 (by omega)
    have hlow : blackHeight sl = blackHeight r' := by
      simp [hsc] at hlr
      omega
    refine ⟨.node d black (.node sd red sl sr) r', c == red,
      by simp [rebalance, hn, hsc, hsl, hsr], ?_, ?_, ?_, ?_, ?_⟩
    · exact ⟨⟨hnsl, hnsr, fun _ => ⟨hsl, hsr⟩⟩, hnr, by simp⟩
    · exact ⟨⟨hbsl, hbsr, hss⟩, hbr, by simpa using hlow⟩
    · by_cases hc : c = red
      · simp [settles, hc, hsc]
      · simp [settles, hc, hsc, hsl, hsr]
    · simp [settles, hsl, hsr]
    · simp

theorem blackHeight_left_le (d : D) (c : UInt32) (l r : RbNode D) :
    blackHeight l ≤ blackHeight (.node d c l r) := by
  rw [blackHeight_node]
  omega

/-- With another sibling `rebalance` dereferences NULL, or reports a balance that is not there:
here the left side is one black node short. -/
theorem rebalance_broken_left (hn : n ≤ 0) (ht : NoRedRed (.node d c l r))
    (hb : BlackBalanced (.node d c l r)) (hheight : blackHeight l = blackHeight l' + 1)
    (hmend : ¬ Mendable n r) (disposed : List D) :
    Broken ((rebalance n (.node d c l' r)).map fun (t, b) => ⟨t, disposed, b⟩) := by
  obtain ⟨-, hnr, -⟩ := ht
  obtain ⟨-, hbr, hlr⟩ := hb
  -- the sibling is red, and so has black children
  have hr : isRed r = true := by
    cases r with
    | null => exact absurd trivial hmend
    | node sd sc sl sr =>
      by_contra hsc
      exact hmend ⟨by simpa using hsc, fun h => absurd h (by omega)⟩
  obtain ⟨sd, sl, sr, rfl⟩ := exists_red_of_isRed hr
  obtain ⟨hsl, hsr⟩ := hnr.2.2 rfl
  have hlow : blackHeight l' < blackHeight sl := by
    simp [hheight] at hlr
    omega
  intro s' hs'
  by_cases hneg : n < 0
  · cases l' with
    | null => simp [rebalance, hn, hneg] at hs'
    | node ld lc ll lr =>
      simp [rebalance, hn, hneg, hsl, hsr] at hs'
      subst hs'
      refine ⟨rfl, fun hbal => ?_⟩
      have hle := blackHeight_left_le ld lc ll lr
      have hll := hbal.2.2
      have hmid := hbal.2.1.2.2
      simp at hll hmid
      omega
  · by_cases hl' : isRed l' = true
    · simp [rebalance, hn, hneg, hl'] at hs'
    · simp [rebalance, hn, hneg, hl', hsl] at hs'
      subst hs'
      refine ⟨rfl, fun hbal => ?_⟩
      have hmid := hbal.1.2.2
      omega

theorem rebalance_broken_right (hn : ¬ n ≤ 0) (hb : BlackBalanced (.node d c l r))
    (hheight : blackHeight r = blackHeight r' + 1) (hmend : ¬ Mendable n l) (disposed : List D) :
    Broken ((rebalance n (.node d c l r')).map fun (t, b) => ⟨t, disposed, b⟩) := by
  have hlow : blackHeight r' < blackHeight l := by
    rw [hb.2.2, hheight]
    omega
  have hneg : ¬ n < 0 := by omega
  intro s' hs'
  cases l with
  | null => exact absurd trivial hmend
  | node sd sc sl sr =>
    by_cases hsc : sc = red
    · cases r' with
      | null => simp [rebalance, hn, hneg, hsc] at hs'
      | node rd rc rl rr => simp [rebalance, hn, hneg, hsc] at hs'
    · by_cases hsr : isRed sr = true
      · -- the rotation moves the sibling below the short side
        cases r' with
        | null => simp [rebalance, hn, hsc, hsr, rbRotationRR] at hs'
        | node rd rc rl rr =>
          cases rr with
          | null => simp [rebalance, hn, hsc, hsr, rbRotationRR, setColor] at hs'
          | node ed ec el er =>
            simp [rebalance, hn, hsc, hsr, rbRotationRR, setColor] at hs'
            subst hs'
            refine ⟨rfl, fun hbal => ?_⟩
            have hle := blackHeight_left_le rd rc rl (.node ed ec el er)
            have hmid := hbal.1.2.2
            omega
      · have hsl : isRed sl = true := by
          by_contra hsl
          exact hmend ⟨hsc, fun _ => ⟨by simpa using hsl, by simpa using hsr⟩⟩
        cases r' with
        | null => simp [rebalance, hn, hsc, hsl, hsr, rbRotationRL, rbRotationLL] at hs'
        | node rd rc rl rr =>
          cases rl with
          | null => simp [rebalance, hn, hsc, hsl, hsr, rbRotationRL, rbRotationLL] at hs'
          | node md mc ml mr =>
            simp [rebalance, hn, hsc, hsl, hsr, rbRotationRL, rbRotationLL, rbRotationRR,
              setColor] at hs'
            subst hs'
            refine ⟨rfl, fun hbal => ?_⟩
            have hle := blackHeight_left_le rd rc (.node md mc ml mr) rr
            have hle' := blackHeight_left_le md mc ml mr
            have hmid := hbal.1.2.2
            omega

end Rebalance

/-! ### One level of the recursion -/

/-- A removal from a subtree either repairs it or breaks it, as a condition on the tree before
it says. -/
structure Outcome (t : RbNode D) (mends : Prop) (short : Bool) (s : Option (RbRemoval D)) :
    Prop where
  repaired : mends → ∃ s', s = some s' ∧ Repaired t short s'
  broken : ¬ mends → Broken s

theorem Repaired.relabel {d d' : D} {c : UInt32} {l r : RbNode D} {short : Bool}
    {s : RbRemoval D} (h : Repaired (.node d c l r) short s) : Repaired (.node d' c l r) short s :=
  ⟨h.noRedRed, h.balanced, h.height, h.flag, h.root⟩

theorem Outcome.map {t : RbNode D} {mends : Prop} {short : Bool} {s : Option (RbRemoval D)}
    (h : Outcome t mends short s) (f : List D → List D) :
    Outcome t mends short (s.map fun s => { s with disposed := f s.disposed }) := by
  constructor
  · intro hm
    obtain ⟨s', rfl, hr⟩ := h.repaired hm
    exact ⟨_, rfl, hr.noRedRed, hr.balanced, hr.height, hr.flag, hr.root⟩
  · intro hm s' hs'
    obtain ⟨s'', hs'', rfl⟩ := Option.map_eq_some_iff.mp hs'
    exact h.broken hm s'' hs''

section Below

variable {p d : D} {c : UInt32} {l r : RbNode D} {mends : Prop} {short : Bool}
  {fromLeft fromRight : Option (RbRemoval D)}

theorem treeRemoveBelow_outcome_left (hp : toInt8 (compare p d) ≤ 0)
    (ht : NoRedRed (.node d c l r)) (hb : BlackBalanced (.node d c l r))
    (h : Outcome l mends short fromLeft) (fromRight : Option (RbRemoval D)) :
    Outcome (.node d c l r) (mends ∧ (short → Mendable (toInt8 (compare p d)) r))
      (short && !settles c r) (treeRemoveBelow compare p d c l r fromLeft fromRight) := by
  rw [treeRemoveBelow, if_pos hp]
  constructor
  · rintro ⟨hm, hmend⟩
    obtain ⟨⟨node, disposed, balanced⟩, rfl, hr⟩ := h.repaired hm
    have hflag := hr.flag
    cases short with
    | false =>
      obtain rfl : balanced = true := hflag
      refine ⟨⟨.node d c node r, disposed, true⟩, rfl, ?_, ?_, ?_, rfl, fun h => h⟩
      · exact ⟨hr.noRedRed, ht.2.1, fun hc => ⟨hr.root (ht.2.2 hc).1, (ht.2.2 hc).2⟩⟩
      · exact ⟨hr.balanced, hb.2.1, by rw [← hb.2.2, hr.height]; simp⟩
      · simp [hr.height]
    | true =>
      obtain rfl : balanced = false := hflag
      obtain ⟨t, b, hreb, hrep⟩ := rebalance_mended_left hp ht hb hr.noRedRed hr.balanced
        hr.height (hmend rfl) disposed
      exact ⟨_, by simp [treeRebalance, hreb], hrep⟩
  · intro hm
    by_cases hbelow : mends
    · obtain ⟨⟨node, disposed, balanced⟩, rfl, hr⟩ := h.repaired hbelow
      have hmend : short = true ∧ ¬ Mendable (toInt8 (compare p d)) r := by
        simpa [hbelow] using hm
      obtain ⟨rfl, hmend⟩ := hmend
      obtain rfl : balanced = false := hr.flag
      exact rebalance_broken_left hp ht hb hr.height hmend disposed
    · intro s' hs'
      obtain ⟨⟨node, disposed, balanced⟩, hs, hs'⟩ := Option.bind_eq_some_iff.mp hs'
      obtain ⟨rfl, hbal⟩ := h.broken hbelow _ hs
      obtain rfl := Option.some.inj hs'
      exact ⟨rfl, fun hb' => hbal hb'.1⟩

theorem treeRemoveBelow_outcome_right (hp : ¬ toInt8 (compare p d) ≤ 0)
    (ht : NoRedRed (.node d c l r)) (hb : BlackBalanced (.node d c l r))
    (h : Outcome r mends short fromRight) (fromLeft : Option (RbRemoval D)) :
    Outcome (.node d c l r) (mends ∧ (short → Mendable (toInt8 (compare p d)) l))
      (short && !settles c l) (treeRemoveBelow compare p d c l r fromLeft fromRight) := by
  rw [treeRemoveBelow, if_neg hp]
  constructor
  · rintro ⟨hm, hmend⟩
    obtain ⟨⟨node, disposed, balanced⟩, rfl, hr⟩ := h.repaired hm
    have hflag := hr.flag
    cases short with
    | false =>
      obtain rfl : balanced = true := hflag
      refine ⟨⟨.node d c l node, disposed, true⟩, rfl, ?_, ?_, ?_, rfl, fun h => h⟩
      · exact ⟨ht.1, hr.noRedRed, fun hc => ⟨(ht.2.2 hc).1, hr.root (ht.2.2 hc).2⟩⟩
      · exact ⟨hb.1, hr.balanced, by rw [hb.2.2, hr.height]; simp⟩
      · simp
    | true =>
      obtain rfl : balanced = false := hflag
      obtain ⟨t, b, hreb, hrep⟩ := rebalance_mended_right hp ht hb hr.noRedRed hr.balanced
        hr.height (hmend rfl) disposed
      exact ⟨_, by simp [treeRebalance, hreb], hrep⟩
  · intro hm
    by_cases hbelow : mends
    · obtain ⟨⟨node, disposed, balanced⟩, rfl, hr⟩ := h.repaired hbelow
      have hmend : short = true ∧ ¬ Mendable (toInt8 (compare p d)) l := by
        simpa [hbelow] using hm
      obtain ⟨rfl, hmend⟩ := hmend
      obtain rfl : balanced = false := hr.flag
      exact rebalance_broken_right hp hb hr.height hmend disposed
    · intro s' hs'
      obtain ⟨⟨node, disposed, balanced⟩, hs, hs'⟩ := Option.bind_eq_some_iff.mp hs'
      obtain ⟨rfl, hbal⟩ := h.broken hbelow _ hs
      obtain rfl := Option.some.inj hs'
      exact ⟨rfl, fun hb' => hbal hb'.2.1⟩

end Below

/-! ### The whole recursion -/

section Removal

variable [DecidableEq D] (hc : TotalPreorder compare) (h3 : ThreeWay compare)
include hc h3

omit [DecidableEq D] hc h3 in
theorem red_of_only_child {d td : D} {c tc : UInt32} {tl tr : RbNode D} {t : RbNode D}
    (ht : t = .node d c .null (.node td tc tl tr) ∨ t = .node d c (.node td tc tl tr) .null)
    (hn : NoRedRed t) (hb : BlackBalanced t) :
    tc = red ∧ c ≠ red ∧ blackHeight tl = 0 ∧ NoRedRed (.node td tc tl tr) ∧
      BlackBalanced (.node td tc tl tr) := by
  rcases ht with rfl | rfl
  · obtain ⟨-, hnt, hred⟩ := hn
    obtain ⟨-, hbt, hh⟩ := hb
    have htc : tc = red := by
      by_contra htc
      simp [htc] at hh
    refine ⟨htc, ?_, by simpa [htc] using hh.symm, hnt, hbt⟩
    intro hc
    simpa [htc] using (hred hc).2
  · obtain ⟨hnt, -, hred⟩ := hn
    obtain ⟨hbt, -, hh⟩ := hb
    have htc : tc = red := by
      by_contra htc
      simp [htc] at hh
    refine ⟨htc, ?_, by simpa [htc] using hh, hnt, hbt⟩
    intro hc
    simpa [htc] using (hred hc).1

omit [DecidableEq D] hc h3 in
/-- A red only child is colored black when it takes the place of its parent. -/
theorem promoted_repaired {d td : D} {c : UInt32} {tl tr t : RbNode D} {disposed : List D}
    (ht : t = .node d c .null (.node td red tl tr) ∨ t = .node d c (.node td red tl tr) .null)
    (hcol : c ≠ red) (hlow : blackHeight tl = 0) (hn : NoRedRed (.node td red tl tr))
    (hb : BlackBalanced (.node td red tl tr)) :
    Repaired t false ⟨.node td (promote c red false).1 tl tr, disposed, true⟩ := by
  have hpro : promote c red false = (black, true) := by simp [promote, hcol]
  rw [hpro]
  refine ⟨⟨hn.1, hn.2.1, by simp⟩, hb, ?_, rfl, fun _ => rfl⟩
  rcases ht with rfl | rfl
  · simp [hcol, hlow]
  · simp [hcol, hlow]

/-- What `tree_remove` does to the colors of a subtree with distinct keys. -/
theorem treeRemove_outcome (registered : Bool) {t : RbNode D} (hn : NoRedRed t)
    (hb : BlackBalanced t) (hs : StrictlyOrdered compare (traverseInorder t)) (p : D) :
    Outcome t (Mends compare t p) (shortens compare t p)
      (treeRemove compare registered t p false) := by
  induction t generalizing p with
  | null =>
    refine ⟨fun _ => ⟨_, rfl, ?_⟩, fun h => absurd trivial h⟩
    exact ⟨trivial, trivial, rfl, rfl, fun h => h⟩
  | node d c l r ihl ihr =>
    obtain ⟨hl, hr, -⟩ := strictlyOrdered_split.mp hs
    by_cases h0 : toInt8 (compare p d) = 0
    · have h0' : compare p d = 0 := by rwa [h3.toInt8_eq] at h0
      have hno := noFurtherMatch_child hc h3 hs h0'
      match l, r with
      | .null, .null =>
        rw [treeRemove.eq_def, Mends.eq_def, shortens.eq_def]
        simp only [h0, if_true]
        refine ⟨fun _ => ⟨_, rfl, trivial, trivial, ?_, ?_, fun _ => rfl⟩,
          fun h => absurd trivial h⟩
        · by_cases hc : c = red <;> simp [hc]
        · simp [bne]
      | .null, .node td tc tl tr =>
        obtain ⟨rfl, hcol, hlow, hnt, hbt⟩ := red_of_only_child (.inl rfl) hn hb
        rw [treeRemove.eq_def, Mends.eq_def, shortens.eq_def]
        simp only [h0, if_true]
        rw [treeRemoveBelow_of_noFurtherMatch registered _ _ hno]
        refine ⟨fun _ => ⟨_, rfl, ?_⟩, fun h => absurd trivial h⟩
        exact promoted_repaired (.inl rfl) hcol hlow hnt hbt
      | .node td tc tl tr, .null =>
        obtain ⟨rfl, hcol, hlow, hnt, hbt⟩ := red_of_only_child (.inr rfl) hn hb
        rw [treeRemove.eq_def, Mends.eq_def, shortens.eq_def]
        simp only [h0, if_true]
        rw [treeRemoveBelow_of_noFurtherMatch registered _ _ hno]
        refine ⟨fun _ => ⟨_, rfl, ?_⟩, fun h => absurd trivial h⟩
        exact promoted_repaired (.inr rfl) hcol hlow hnt hbt
      | .node ld lc ll lr, .node rd rc rl rr =>
        have hp0 : toInt8 (compare (lastData ld lr) (lastData ld lr)) = 0 := by
          rw [hc.self]
          rfl
        have hbelow := treeRemoveBelow_outcome_left (d := lastData ld lr) hp0.le hn hb
          (ihl hn.1 hb.1 hl (lastData ld lr))
          (treeRemove compare registered (.node rd rc rl rr) (lastData ld lr) false)
        rw [treeRemove.eq_def, Mends.eq_def, shortens.eq_def]
        simp only [h0, if_true]
        rw [hp0] at hbelow
        have hout := hbelow.map fun disposed => (if registered then [d] else []) ++ disposed
        exact ⟨fun hm => (hout.repaired hm).imp fun s h => ⟨h.1, h.2.relabel⟩, hout.broken⟩
    · rw [treeRemove_descend h0, Mends.eq_def, shortens.eq_def]
      simp only [h0, if_false]
      by_cases hle : toInt8 (compare p d) ≤ 0
      · simp only [hle, if_true]
        exact treeRemoveBelow_outcome_left hle hn hb (ihl hn.1 hb.1 hl p) _
      · simp only [hle, if_false]
        exact treeRemoveBelow_outcome_right hle hn hb (ihr hn.2.1 hb.2.1 hr p) _

theorem treeRemove_match (registered : Bool) {p d : D} {c : UInt32} {l r : RbNode D}
    (hs : StrictlyOrdered compare (traverseInorder (.node d c l r))) (h0 : compare p d = 0)
    (hmends : Mends compare (.node d c l r) p) :
    ∃ s, treeRemove compare registered (.node d c l r) p false = some s ∧
      s.disposed = disposedAt registered p (.node d c l r) ∧
      s.balanced = !shortens compare (.node d c l r) p ∧
      traverseInorder s.node = traverseInorder l ++ traverseInorder r := by
  have h8 : toInt8 (compare p d) = 0 := by rw [h3.toInt8_eq, h0]
  by_cases hnull : isNull l ∨ isNull r
  · rw [disposedAt_of_null registered c hnull]
    exact treeRemove_free registered c h8 hnull (noFurtherMatch_child hc h3 hs h0)
  · match l, r with
    | .null, _ => simp [isNull] at hnull
    | .node _ _ _ _, .null => simp [isNull] at hnull
    | .node ld lc ll lr, .node rd rc rl rr =>
      have hleft := (strictlyOrdered_split.mp hs).1
      obtain ⟨pc, pl, hm, hno⟩ := firstMatch_predecessor hc h3 hleft
      obtain ⟨s, before, after, hrm, hd, hb, hin, hout⟩ :=
        treeRemove_copy registered c rd rc rl rr h8 hm hno hmends
      obtain rfl := after_lastData_eq_nil hc hleft hin
      exact ⟨s, hrm, hd, hb, by rw [hout, hin]; simp⟩

theorem treeRemove_erases (registered : Bool) {p d : D} {c : UInt32} {l r t : RbNode D}
    (hs : StrictlyOrdered compare (traverseInorder t))
    (hm : firstMatch compare p t = some (.node d c l r)) (hmends : Mends compare t p) :
    ∃ s before after, treeRemove compare registered t p false = some s ∧
      s.disposed = disposedAt registered p (.node d c l r) ∧
      traverseInorder t = before ++ d :: after ∧ traverseInorder s.node = before ++ after := by
  have h0 : compare p d = 0 := by rw [← h3.toInt8_eq, toInt8_of_firstMatch hm]
  obtain ⟨sm, hsm, hd, hb, hin⟩ := treeRemove_match hc h3 registered
    (strictlyOrdered_firstMatch hs hm) h0 (mends_of_match hm hmends)
  obtain ⟨s, before, after, hrm, hd', -, hin', hout⟩ := treeRemove_of_match hm hsm hb hmends
  refine ⟨s, before ++ traverseInorder l, traverseInorder r ++ after, hrm, by rw [hd', hd],
    ?_, ?_⟩
  · rw [hin']
    simp
  · rw [hout, hin]
    simp

end Removal

/-! ### The library call -/

section Call

variable [DecidableEq D]

/-- A removal leaves a red-black search tree without the matching datum, which alone was
passed to the callback, or without a match the tree as it was. -/
def RemovesMatch (compare : D → D → ℤ) (registered : Bool) (t : TreeTag UInt32 D) (key : D) :
    Prop :=
  ∃ status t' disposed, rbtreeRemove compare registered t key = some (status, t', disposed) ∧
    RedBlackSearch compare t'.root ∧
    ((∃ before d after, compare key d = 0 ∧ traverseInorder t.root = before ++ d :: after ∧
        traverseInorder t'.root = before ++ after ∧
        disposed = if registered then [d] else []) ∨
      (∀ d ∈ traverseInorder t.root, compare key d ≠ 0) ∧ t'.root = t.root ∧ disposed = [])

omit [DecidableEq D] in
def Reports (compare : D → D → ℤ) (registered : Bool) (t : RbNode D) (key : D) : Prop :=
  ∀ c l r, firstMatch compare key t = some (.node key c l r) →
    registered = true → isNull l = false ∧ isNull r = false

omit [DecidableEq D] in
theorem noRedRed_blacken {t : RbNode D} (h : NoRedRed t) : NoRedRed (blacken t) := by
  cases t with
  | null => trivial
  | node d c l r => exact ⟨h.1, h.2.1, fun hc => absurd hc black_ne_red⟩

omit [DecidableEq D] in
theorem blackBalanced_blacken (t : RbNode D) : BlackBalanced (blacken t) ↔ BlackBalanced t := by
  cases t with
  | null => exact Iff.rfl
  | node d c l r => exact Iff.rfl

omit [DecidableEq D] in
theorem blackRoot_blacken (t : RbNode D) :
    blacken t = .null ∨ ∃ d l r, blacken t = .node d black l r := by
  cases t with
  | null => exact .inl rfl
  | node d c l r => exact .inr ⟨d, l, r, rfl⟩

variable (hc : TotalPreorder compare) (h3 : ThreeWay compare)
include hc h3

/-- A match leaves a mendable red-black search tree and is reported. -/
theorem removesMatch_of_firstMatch (registered : Bool) {t : TreeTag UInt32 D}
    (h : RedBlackSearch compare t.root) {key d : D} {c : UInt32} {l r : RbNode D}
    (hm : firstMatch compare key t.root = some (.node d c l r))
    (hmends : Mends compare t.root key)
    (hreports : key = d → registered = true → isNull l = false ∧ isNull r = false) :
    RemovesMatch compare registered t key := by
  have hs := h.ordered
  have h0 : compare key d = 0 := by rw [← h3.toInt8_eq, toInt8_of_firstMatch hm]
  have hout := treeRemove_outcome hc h3 registered h.noRedRed
    ((blackBalanced_iff _).mpr h.blackCount) hs key
  obtain ⟨s, before, after, hrun, hdisp, hin, hin'⟩ :=
    treeRemove_erases hc h3 registered hs hm hmends
  obtain ⟨s', hrun', hrep⟩ := hout.repaired hmends
  obtain rfl := Option.some.inj (hrun.symm.trans hrun')
  rw [← traverseInorder_blacken] at hin'
  refine ⟨.success, ⟨t.numNodes - 1, blacken s.node⟩, s.disposed, ?_, ?_, .inl ⟨before, d,
    after, h0, hin, hin', by rw [hdisp, disposedAt_eq_iff.mpr hreports]⟩⟩
  · rw [rbtreeRemove]
    cases hroot : t.root with
    | null =>
      rw [hroot] at hm
      cases hm
    | node rd rc rl rr =>
      rw [hroot] at hrun
      simp only [hrun, Option.map_some]
  · refine ⟨noRedRed_blacken hrep.noRedRed, ?_, blackRoot_blacken s.node, ?_⟩
    · rw [← blackBalanced_iff, blackBalanced_blacken]
      exact hrep.balanced
    · rw [hin] at hs
      change StrictlyOrdered compare (traverseInorder (blacken s.node))
      rw [hin']
      exact hs.sublist (List.Sublist.append_left (List.sublist_cons_self d after) before)

omit hc in
theorem removesMatch_of_absent (registered : Bool) {t : TreeTag UInt32 D}
    (h : RedBlackSearch compare t.root) {key : D}
    (habsent : ∀ d ∈ traverseInorder t.root, compare key d ≠ 0) :
    RemovesMatch compare registered t key := by
  have hnone : firstMatch compare key t.root = none :=
    firstMatch_eq_none fun d hd => by rw [h3.toInt8_eq]; exact habsent d hd
  obtain ⟨n, root⟩ := t
  rcases h.blackRoot with hroot | ⟨d, l, r, hroot⟩
  · obtain rfl : root = .null := hroot
    exact ⟨_, _, _, rfl, h, .inr ⟨habsent, rfl, rfl⟩⟩
  · obtain rfl : root = .node d black l r := hroot
    refine ⟨.success, ⟨n - 1, .node d black l r⟩, [], ?_, ⟨h.noRedRed, h.blackCount,
      h.blackRoot, h.ordered⟩, .inr ⟨habsent, rfl, rfl⟩⟩
    simp only [rbtreeRemove, treeRemove_of_none registered hnone false, Option.map_some, blacken]

/-- A removal that did its work met only siblings it can mend. -/
theorem mends_of_removesMatch {registered : Bool} {t : TreeTag UInt32 D}
    (h : RedBlackSearch compare t.root) {key : D} (hm : RemovesMatch compare registered t key) :
    Mends compare t.root key := by
  have hout := treeRemove_outcome hc h3 registered h.noRedRed
    ((blackBalanced_iff _).mpr h.blackCount) h.ordered key
  obtain ⟨status, t', disposed, hrm, hsearch, -⟩ := hm
  by_contra hmends
  rw [rbtreeRemove] at hrm
  cases hroot : t.root with
  | null =>
    rw [hroot] at hmends
    exact hmends trivial
  | node rd rc rl rr =>
    simp only [hroot] at hrm
    obtain ⟨s, hrun, heq⟩ := Option.map_eq_some_iff.mp hrm
    cases heq
    rw [hroot] at hout hmends
    refine (hout.broken hmends s hrun).2 ((blackBalanced_blacken s.node).mp ?_)
    exact (blackBalanced_iff _).mpr hsearch.blackCount

theorem reports_of_removesMatch {registered : Bool} {t : TreeTag UInt32 D}
    (h : RedBlackSearch compare t.root) {key : D} (hm : RemovesMatch compare registered t key) :
    Reports compare registered t.root key := by
  have hmends := mends_of_removesMatch hc h3 h hm
  obtain ⟨status, t', disposed, hrm, -, hcase⟩ := hm
  intro c l r hfirst
  obtain ⟨s, _, _, hrun, hdisp, -, -⟩ := treeRemove_erases hc h3 registered h.ordered hfirst hmends
  have hd : disposed = s.disposed := by
    rw [rbtreeRemove] at hrm
    cases hroot : t.root with
    | null =>
      rw [hroot] at hfirst
      cases hfirst
    | node rd rc rl rr =>
      rw [hroot] at hrun
      simp only [hroot, hrun, Option.map_some] at hrm
      cases hrm
      rfl
  rcases hcase with ⟨before, d, after, h0, hin, -, hdisp'⟩ | ⟨habsent, -⟩
  · -- the datum taken out is the one that the key points to
    obtain ⟨c', l', r', hfirst'⟩ :=
      firstMatch_of_mem hc h3 h.ordered (e := d) (by rw [hin]; simp) h0
    rw [hfirst] at hfirst'
    cases hfirst'
    rw [hd, hdisp] at hdisp'
    exact disposedAt_eq_iff.mp hdisp' rfl
  · exact absurd (hc.self key) (habsent key (mem_of_firstMatch hfirst))

/-- `RBtree_remove` keeps a red-black search tree one, and takes out and reports the match,
exactly when the balance can be mended on the way up and the callback is not skipped. -/
theorem rbtreeRemove_iff (registered : Bool) {t : TreeTag UInt32 D}
    (h : RedBlackSearch compare t.root) (key : D) :
    RemovesMatch compare registered t key ↔
      Mends compare t.root key ∧ Reports compare registered t.root key := by
  constructor
  · intro hm
    exact ⟨mends_of_removesMatch hc h3 h hm, reports_of_removesMatch hc h3 h hm⟩
  · rintro ⟨hmends, hreports⟩
    by_cases hex : ∃ d ∈ traverseInorder t.root, compare key d = 0
    · obtain ⟨d, hd, h0⟩ := hex
      obtain ⟨c, l, r, hm⟩ := firstMatch_of_mem hc h3 h.ordered hd h0
      refine removesMatch_of_firstMatch hc h3 registered h hm hmends ?_
      rintro rfl
      exact hreports c l r hm
    · exact removesMatch_of_absent h3 registered h fun d hd h0 => hex ⟨d, hd, h0⟩

omit hc h3

def fourNodes : TreeTag UInt32 (ℤ × ℕ) :=
  ⟨4, .node (2, 0) black (.node (1, 1) black (.node (0, 3) red .null .null) .null)
    (.node (3, 2) black .null .null)⟩

theorem fourNodes_search : RedBlackSearch compareKeySigns fourNodes.root where
  noRedRed := by simp [fourNodes]
  blackCount := by decide
  blackRoot := .inr ⟨_, _, _, rfl⟩
  ordered := by simp [fourNodes, StrictlyOrdered, compareKeySigns]

theorem rbtreeRemove_iff_example :
    RemovesMatch compareKeySigns true fourNodes (1, 9) := by
  refine (rbtreeRemove_iff compareKeySigns_preorder compareKeySigns_threeWay true
    fourNodes_search (1, 9)).mpr ⟨⟨trivial, fun h => ?_⟩, fun c l r hm => ?_⟩
  · exact absurd h (by decide)
  · exact absurd hm (by simp [fourNodes, firstMatch, compareKeySigns, toInt8])

/-- The sibling of the black leaf on the right has a red child: a NULL pointer is
dereferenced. -/
theorem rbtreeRemove_not_removesMatch :
    ∃ t : TreeTag UInt32 (ℤ × ℕ), rbtreeAttachAll compareKeySigns
        [((2, 0), red), ((1, 1), red), ((3, 2), red), ((0, 3), red)] = some t ∧
      RedBlackSearch compareKeySigns t.root ∧ ¬ RemovesMatch compareKeySigns true t (3, 9) := by
  refine ⟨fourNodes, by decide, fourNodes_search, ?_⟩
  rintro ⟨status, t', disposed, hrm, -⟩
  have hnone : rbtreeRemove compareKeySigns true fourNodes (3, 9) = none := by decide
  rw [hnone] at hrm
  cases hrm

end Call

end MorningProjects.Tree
