import MorningProjects.Tree.Ownership

/-!
# Removal from an AVL tree with distinct keys

Where no two stored keys are equal the search that `avltree_remove` resumes
after its match finds nothing more, and the search for a predecessor's key ends
at the predecessor, so the traversal loses the matching datum and no other.
-/
namespace MorningProjects.Tree
open Library

variable {κ D : Type*} {compare : D → D → ℤ}

def ThreeWay (compare : D → D → ℤ) : Prop :=
  ∀ a b, compare a b = -1 ∨ compare a b = 0 ∨ compare a b = 1

/-- Such results are the same in an `int8_t`. -/
theorem ThreeWay.toInt8_eq (h3 : ThreeWay compare) (a b : D) :
    toInt8 (compare a b) = compare a b := by
  rcases h3 a b with h | h | h
  · rw [h]
    rfl
  · rw [h]
    rfl
  · rw [h]
    rfl

/-- The order of two keys as the sign of their difference; marks are ignored. -/
def compareKeySigns (a b : ℤ × ℕ) : ℤ := (a.1 - b.1).sign

theorem compareKeySigns_threeWay : ThreeWay compareKeySigns := by
  intro a b
  rw [compareKeySigns]
  rcases lt_trichotomy (a.1 - b.1) 0 with h | h | h
  · exact .inl (Int.sign_eq_neg_one_of_neg h)
  · exact .inr (.inl (by rw [h]; rfl))
  · exact .inr (.inr (Int.sign_eq_one_of_pos h))

theorem compareKeySigns_preorder : TotalPreorder compareKeySigns where
  self a := by simp [compareKeySigns]
  flip a b := by
    simp only [compareKeySigns, Int.sign_neg_iff, Int.sign_pos_iff]
    omega
  trans a b c := by
    simp only [compareKeySigns, Int.sign_nonpos_iff]
    omega

/-! ### The search among distinct keys -/

theorem firstMatch_eq_none {p : D} {t : Node κ D}
    (h : ∀ d ∈ traverseInorder t, toInt8 (compare p d) ≠ 0) : firstMatch compare p t = none := by
  induction t with
  | null => rfl
  | node d c l r ihl ihr =>
    rw [firstMatch, if_neg (h d (by simp))]
    split_ifs
    · exact ihl fun e he => h e (by simp [he])
    · exact ihr fun e he => h e (by simp [he])

section Distinct

variable (hc : TotalPreorder compare) (h3 : ThreeWay compare)
include hc h3

theorem firstMatch_of_mem {p e : D} {t : Node κ D}
    (hs : StrictlyOrdered compare (traverseInorder t)) (he : e ∈ traverseInorder t)
    (h0 : compare p e = 0) : ∃ c l r, firstMatch compare p t = some (.node e c l r) := by
  induction t with
  | null => simp at he
  | node d c l r ihl ihr =>
    obtain ⟨hl, hr, hld, hdr, -⟩ := strictlyOrdered_split.mp hs
    rw [firstMatch, h3.toInt8_eq]
    rcases List.mem_append.mp he with he | he
    · have hpd : compare p d < 0 := hc.lt_of_le_of_lt h0.le (hld e he)
      rw [if_neg hpd.ne, if_pos hpd.le]
      exact ihl hl he
    · rcases List.mem_cons.mp he with rfl | he
      · rw [if_pos h0]
        exact ⟨c, l, r, rfl⟩
      · have hpd : 0 < compare p d :=
          hc.gt_iff.mpr (hc.lt_of_lt_of_le (hdr e he) (hc.eq_comm h0).le)
        rw [if_neg hpd.ne', if_neg (not_le.mpr hpd)]
        exact ihr hr he

omit h3 in
theorem ne_zero_of_match {p d : D} {l r : List D} (hs : StrictlyOrdered compare (l ++ d :: r))
    (h0 : compare p d = 0) : (∀ e ∈ l, compare p e ≠ 0) ∧ ∀ e ∈ r, compare p e ≠ 0 := by
  obtain ⟨-, -, hld, hdr, -⟩ := strictlyOrdered_split.mp hs
  constructor
  · intro e he hpe
    have := hc.lt_of_le_of_lt hpe.le (hld e he)
    omega
  · intro e he hpe
    have := hc.lt_of_le_of_lt h0.le (hdr e he)
    omega

omit hc in
theorem noFurtherMatch_of_ne_zero {p : D} {t : Node κ D}
    (h : ∀ e ∈ traverseInorder t, compare p e ≠ 0) : NoFurtherMatch compare p t := by
  cases t with
  | null => trivial
  | node d c l r =>
    rw [NoFurtherMatch]
    apply firstMatch_eq_none
    intro e he
    rw [h3.toInt8_eq]
    split_ifs at he
    · exact h e (by simp [he])
    · exact h e (by simp [he])

theorem noFurtherMatch_child {p d : D} {c : κ} {l r : Node κ D}
    (hs : StrictlyOrdered compare (traverseInorder (.node d c l r))) (h0 : compare p d = 0) :
    NoFurtherMatch compare p (if isNull l then r else l) := by
  obtain ⟨hl, hr⟩ := ne_zero_of_match hc hs h0
  split_ifs
  · exact noFurtherMatch_of_ne_zero h3 hr
  · exact noFurtherMatch_of_ne_zero h3 hl

omit hc h3 in
theorem traverseInorder_firstMatch {p : D} {t m : Node κ D} (h : firstMatch compare p t = some m) :
    ∃ before after, traverseInorder t = before ++ traverseInorder m ++ after := by
  induction t with
  | null => cases h
  | node d c l r ihl ihr =>
    rw [firstMatch] at h
    split_ifs at h
    · obtain rfl := Option.some.inj h
      exact ⟨[], [], by simp⟩
    · obtain ⟨before, after, hin⟩ := ihl h
      exact ⟨before, after ++ d :: traverseInorder r, by simp [hin]⟩
    · obtain ⟨before, after, hin⟩ := ihr h
      exact ⟨traverseInorder l ++ d :: before, after, by simp [hin]⟩

omit hc h3 in
theorem strictlyOrdered_firstMatch {p : D} {t m : Node κ D}
    (hs : StrictlyOrdered compare (traverseInorder t)) (h : firstMatch compare p t = some m) :
    StrictlyOrdered compare (traverseInorder m) := by
  obtain ⟨before, after, hin⟩ := traverseInorder_firstMatch h
  rw [hin] at hs
  exact (List.pairwise_append.mp (List.pairwise_append.mp hs).1).2.1

omit hc h3 in
theorem traverseInorder_lastData (d : D) (c : κ) (l r : Node κ D) :
    ∃ before, traverseInorder (.node d c l r) = before ++ [lastData d r] := by
  induction r generalizing d c l with
  | null => exact ⟨traverseInorder l, rfl⟩
  | node rd rc rl rr _ ihr =>
    obtain ⟨before, hbefore⟩ := ihr rd rc rl
    refine ⟨traverseInorder l ++ d :: before, ?_⟩
    rw [traverseInorder_node, hbefore, lastData]
    simp

theorem firstMatch_lastData {d : D} {c : κ} {l r : Node κ D}
    (hs : StrictlyOrdered compare (traverseInorder (.node d c l r))) :
    ∃ pc pl, firstMatch compare (lastData d r) (.node d c l r) =
      some (.node (lastData d r) pc pl .null) := by
  induction r generalizing d c l with
  | null => exact ⟨c, l, by rw [lastData, firstMatch, hc.self]; rfl⟩
  | node rd rc rl rr _ ihr =>
    obtain ⟨-, hr, -, hdr, -⟩ := strictlyOrdered_split.mp hs
    have hmem : lastData rd rr ∈ traverseInorder (.node rd rc rl rr) := by
      obtain ⟨before, hbefore⟩ := traverseInorder_lastData rd rc rl rr
      rw [hbefore]
      simp
    have hpd : 0 < compare (lastData rd rr) d := hc.gt_iff.mpr (hdr _ hmem)
    rw [firstMatch, h3.toInt8_eq, lastData, if_neg hpd.ne', if_neg (not_le.mpr hpd)]
    exact ihr hr

/-- The search for the predecessor's key ends at the predecessor, which has no right child,
and resumed below it finds nothing. -/
theorem firstMatch_predecessor {d : D} {c : κ} {l r : Node κ D}
    (hs : StrictlyOrdered compare (traverseInorder (.node d c l r))) :
    ∃ pc pl, firstMatch compare (lastData d r) (.node d c l r) =
        some (.node (lastData d r) pc pl .null) ∧
      NoFurtherMatch compare (lastData d r) pl := by
  obtain ⟨pc, pl, hm⟩ := firstMatch_lastData hc h3 hs
  refine ⟨pc, pl, hm, noFurtherMatch_of_ne_zero h3 ?_⟩
  exact (ne_zero_of_match hc (strictlyOrdered_firstMatch hs hm) (hc.self _)).1

omit h3 in
theorem after_lastData_eq_nil {d : D} {c : κ} {l r : Node κ D} {before after : List D}
    (hs : StrictlyOrdered compare (traverseInorder (.node d c l r)))
    (h : traverseInorder (.node d c l r) = before ++ lastData d r :: after) : after = [] := by
  obtain ⟨init, hinit⟩ := traverseInorder_lastData d c l r
  rcases List.eq_nil_or_concat after with hnil | ⟨rest, e, rfl⟩
  · exact hnil
  · -- the last datum would be smaller than itself
    rw [h] at hs hinit
    have he : e = lastData d r := by
      have hinit : (before ++ lastData d r :: rest) ++ [e] = init ++ [lastData d r] := by
        rw [← hinit]
        simp
      exact List.singleton_inj.mp (List.append_inj' hinit rfl).2
    obtain ⟨-, -, -, hlt, -⟩ := strictlyOrdered_split.mp hs
    have := hlt e (by simp)
    rw [he, hc.self] at this
    exact absurd this (lt_irrefl 0)

end Distinct

/-! ### Removal -/

section Removal

variable [DecidableEq D]

def disposedAt (registered : Bool) (p : D) : Node κ D → List D
  | .null => []
  | .node d _ (.node _ _ _ _) (.node _ _ _ _) => if registered then [d] else []
  | .node d _ _ _ => disposal registered p d

theorem disposedAt_of_null {p d : D} {l r : Node κ D} (registered : Bool) (c : κ)
    (h : isNull l ∨ isNull r) :
    disposedAt registered p (.node d c l r) = disposal registered p d := by
  match l, r with
  | .null, _ => rfl
  | .node _ _ _ _, .null => rfl
  | .node _ _ _ _, .node _ _ _ _ => simp [isNull] at h

/-- Only a stored key pointer at a node with a NULL child keeps the datum from the callback. -/
theorem disposedAt_eq_iff {registered : Bool} {p d : D} {c : κ} {l r : Node κ D} :
    disposedAt registered p (.node d c l r) = (if registered then [d] else []) ↔
      (p = d → registered = true → isNull l = false ∧ isNull r = false) := by
  cases registered <;> cases l <;> cases r <;> simp [disposedAt, disposal, isNull]

variable (hc : TotalPreorder compare) (h3 : ThreeWay compare)
include hc h3

theorem avltreeRemoveAt_match (registered : Bool) {p d : D} {c : κ} {l r : Node κ D}
    (hs : StrictlyOrdered compare (traverseInorder (.node d c l r))) (h0 : compare p d = 0) :
    ∃ s, avltreeRemoveAt compare registered (.node d c l r) p = some s ∧
      s.disposed = disposedAt registered p (.node d c l r) ∧ s.freed = 1 ∧
      traverseInorder s.node = traverseInorder l ++ traverseInorder r := by
  have h8 : toInt8 (compare p d) = 0 := by rw [h3.toInt8_eq, h0]
  by_cases hnull : isNull l ∨ isNull r
  · rw [disposedAt_of_null registered c hnull]
    exact avltreeRemoveAt_free registered c h8 hnull (noFurtherMatch_child hc h3 hs h0)
  · match l, r with
    | .null, _ => simp [isNull] at hnull
    | .node _ _ _ _, .null => simp [isNull] at hnull
    | .node ld lc ll lr, .node rd rc rl rr =>
      have hleft := (strictlyOrdered_split.mp hs).1
      obtain ⟨pc, pl, hm, hno⟩ := firstMatch_predecessor hc h3 hleft
      obtain ⟨s, before, after, hrm, hd, hf, hin, hout⟩ :=
        avltreeRemoveAt_copy registered c rd rc rl rr hc.self h8 hm hno
      obtain rfl := after_lastData_eq_nil hc hleft hin
      exact ⟨s, hrm, hd, hf, by rw [hout, hin]; simp⟩

theorem avltreeRemoveAt_erases (registered : Bool) {p d : D} {c : κ} {l r t : Node κ D}
    (hs : StrictlyOrdered compare (traverseInorder t))
    (hm : firstMatch compare p t = some (.node d c l r)) :
    ∃ s before after, avltreeRemoveAt compare registered t p = some s ∧
      s.disposed = disposedAt registered p (.node d c l r) ∧ s.freed = 1 ∧
      traverseInorder t = before ++ d :: after ∧ traverseInorder s.node = before ++ after := by
  have h0 : compare p d = 0 := by rw [← h3.toInt8_eq, toInt8_of_firstMatch hm]
  obtain ⟨sm, hsm, hd, hf, hin⟩ :=
    avltreeRemoveAt_match hc h3 registered (strictlyOrdered_firstMatch hs hm) h0
  obtain ⟨s, before, after, hrm, hd', hf', hin', hout⟩ := avltreeRemoveAt_of_match hm hsm
  refine ⟨s, before ++ traverseInorder l, traverseInorder r ++ after, hrm, by rw [hd', hd],
    by rw [hf', hf], ?_, ?_⟩
  · rw [hin']
    simp
  · rw [hout, hin]
    simp

/-- `AVLtree_remove` on a tree of any shape with distinct keys, the key coming through a
pointer that is not stored. -/
theorem avltreeRemove_erases (registered : Bool) {t : TreeTag Unit D}
    (hs : StrictlyOrdered compare (traverseInorder t.root)) (key : D)
    (hkey : key ∉ traverseInorder t.root) :
    ∃ t' disposed, avltreeRemove compare registered t key = some (.success, t', disposed) ∧
      ((∃ before d after, compare key d = 0 ∧
          traverseInorder t.root = before ++ d :: after ∧
          traverseInorder t'.root = before ++ after ∧ t'.numNodes = t.numNodes - 1 ∧
          disposed = if registered then [d] else []) ∨
        (∀ d ∈ traverseInorder t.root, compare key d ≠ 0) ∧
          traverseInorder t'.root = traverseInorder t.root ∧ t'.numNodes = t.numNodes ∧
          disposed = []) := by
  by_cases hex : ∃ d ∈ traverseInorder t.root, compare key d = 0
  · obtain ⟨d, hd, h0⟩ := hex
    obtain ⟨c, l, r, hm⟩ := firstMatch_of_mem hc h3 hs hd h0
    obtain ⟨s, before, after, hrm, hdisp, hf, hin, hout⟩ :=
      avltreeRemoveAt_erases hc h3 registered hs hm
    refine ⟨⟨t.numNodes - 1, s.node⟩, s.disposed, ?_, .inl ⟨before, d, after, h0, hin, hout,
      rfl, ?_⟩⟩
    · rw [avltreeRemove, hrm, Option.map_some, hf]
      rfl
    · rw [hdisp, disposedAt_eq_iff]
      rintro rfl
      exact absurd hd hkey
  · have habsent : ∀ d ∈ traverseInorder t.root, compare key d ≠ 0 :=
      fun d hd h0 => hex ⟨d, hd, h0⟩
    have hnone : firstMatch compare key t.root = none :=
      firstMatch_eq_none fun d hd => by rw [h3.toInt8_eq]; exact habsent d hd
    obtain ⟨s, hrm, hdisp, hf, hin⟩ := avltreeRemoveAt_of_none registered hnone
    refine ⟨⟨t.numNodes, s.node⟩, s.disposed, ?_, .inr ⟨habsent, hin, rfl, hdisp⟩⟩
    rw [avltreeRemove, hrm, Option.map_some, hf]
    simp

omit hc h3 in
theorem avltreeRemove_erases_example :
    ∃ t' disposed, avltreeRemove compareKeySigns true
        ⟨4, .node (2, 0) () (.node (1, 1) () .null .null)
          (.node (4, 2) () (.node (3, 3) () .null .null) .null)⟩ (4, 9) =
        some (.success, t', disposed) ∧ traverseInorder t'.root = [(1, 1), (2, 0), (3, 3)] := by
  have hs : StrictlyOrdered compareKeySigns (traverseInorder (.node (2, 0) ()
      (.node (1, 1) () .null .null) (.node (4, 2) () (.node (3, 3) () .null .null) .null))) := by
    simp [StrictlyOrdered, compareKeySigns]
  obtain ⟨t', disposed, ht', -⟩ := avltreeRemove_erases compareKeySigns_preorder
    compareKeySigns_threeWay true (t := ⟨4, _⟩) hs (4, 9) (by simp)
  refine ⟨t', disposed, ht', ?_⟩
  cases ht'
  rfl

end Removal

end MorningProjects.Tree
