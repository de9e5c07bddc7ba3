import MorningProjects.Library.KeyedSet
import MorningProjects.Library.Simulation
import MorningProjects.Tree.AvlRemoveBalance
import MorningProjects.Tree.BstRemove
import MorningProjects.Tree.Depth
import MorningProjects.Tree.RbRemoveBalance
import MorningProjects.Tree.Signs

/-!
# Three implementations of one set

Under the calls that attach absent keys, remove and look up, each of the three
trees is a set with one datum for a key: it gives the answers of the set and
holds its data in order. For each tree the condition on a removal is the one
under which it does its work; an AVL tree and a red-black tree then also stay
flat.
-/
namespace MorningProjects.Tree
open Library

universe u

variable {D : Type u} {compare : D → D → ℤ}

/-! ### The AVL tree -/

/-- One call with memory for a node and a callback. -/
def avlCall [DecidableEq D] (compare : D → D → ℤ) (t : TreeTag Unit D) :
    KeyedCall D → Option (TreeTag Unit D × KeyedAnswer D)
  | .attach data => (avltreeAttach compare t data (some ())).map fun r => (r.2, .attached)
  | .remove key =>
    (avltreeRemove compare true t key).map fun (_, tree, disposed) => (tree, .removed disposed)
  | .lookup key => some (t, .found (bstreeLookup compare t key))

/-- No equal datum is attached, and no key removed whose pointer is stored or whose removal
`avl_rebalance_ex` cannot make up for. -/
def AvlPermits (compare : D → D → ℤ) (t : TreeTag Unit D) : KeyedCall D → Prop
  | .attach data => ∀ d ∈ traverseInorder t.root, compare data d ≠ 0
  | .remove key => key ∉ traverseInorder t.root ∧ Fits compare t.root key
  | .lookup _ => True

structure AvlHolds (compare : D → D → ℤ) (t : TreeTag Unit D) (l : List D) : Prop where
  balanced : Balanced t.root
  inorder : traverseInorder t.root = l
  ordered : StrictlyOrdered compare l
  counted : t.numNodes = UInt32.ofNat l.length

theorem isSome_lookup_eq_any {κ : Type*} (hc : TotalPreorder compare) {t : Node κ D}
    (ho : StrictlyOrdered compare (traverseInorder t)) (key : D) :
    (lookup compare key t).isSome = (traverseInorder t).any fun d => compare key d = 0 := by
  rw [Bool.eq_iff_iff, lookup_isSome hc key ho.ordered, List.any_eq_true]
  simp only [decide_eq_true_eq]

section Avl

variable (hc : TotalPreorder compare) (h3 : ThreeWay compare) {t : TreeTag Unit D} {l : List D}
include hc

theorem AvlHolds.attach (h : AvlHolds compare t l) {data : D}
    (hpermit : AvlPermits compare t (.attach data)) :
    ∃ t', avltreeAttach compare t data (some ()) = some (.success, t') ∧
      AvlHolds compare t' (insertAbsent compare data l) := by
  have hin := h.inorder
  have ho : Ordered compare (traverseInorder t.root) := hin ▸ h.ordered.ordered
  obtain ⟨t', ht', hb, hin'⟩ := avltreeAttach_exists hc data h.balanced ho
  rw [hin] at hin'
  have habsent : insertAbsent compare data l = insertAfter compare data l :=
    insertAbsent_eq_insertAfter (hin ▸ hpermit)
  refine ⟨t', ht', hb, hin'.trans habsent.symm, h.ordered.insertAbsent hc data, ?_⟩
  obtain ⟨-, -, hnum⟩ := avltreeAttach_perm ht'
  rw [hnum, h.counted, habsent, (insertAfter_perm data l).length_eq, List.length_cons,
    UInt32.ofNat_add]
  rfl

include h3

variable [DecidableEq D]

theorem AvlHolds.remove (h : AvlHolds compare t l) {key : D}
    (hpermit : AvlPermits compare t (.remove key)) :
    ∃ t' disposed, avltreeRemove compare true t key = some (.success, t', disposed) ∧
      keyedSet compare l (.remove key) = (traverseInorder t'.root, .removed disposed) ∧
      AvlHolds compare t' (traverseInorder t'.root) := by
  obtain ⟨hkey, hfits⟩ := hpermit
  have hin := h.inorder
  have hs : StrictlyOrdered compare (traverseInorder t.root) := hin ▸ h.ordered
  obtain ⟨s, hs', htrim⟩ := avltreeRemoveAt_trimmed hc.self true h.balanced key
  have hrun : avltreeRemove compare true t key =
      some (.success, ⟨t.numNodes - UInt32.ofNat s.freed, s.node⟩, s.disposed) := by
    rw [avltreeRemove, hs', Option.map_some]
  refine ⟨_, _, hrun, ?_⟩
  by_cases hex : ∃ d ∈ traverseInorder t.root, compare key d = 0
  · obtain ⟨d, hd, h0⟩ := hex
    obtain ⟨c, tl, tr, hm⟩ := firstMatch_of_mem hc h3 hs hd h0
    obtain ⟨s', before, after, hrm, hdisp, hfreed, hbefore, hafter⟩ :=
      avltreeRemoveAt_erases hc h3 true hs hm
    obtain rfl : s = s' := Option.some.inj (hs'.symm.trans hrm)
    have hone : s.disposed = [d] := by
      rw [hdisp]
      refine disposedAt_eq_iff.mpr ?_
      rintro rfl
      exact absurd hd hkey
    have hl : l = before ++ d :: after := hin.symm.trans hbefore
    have ho : StrictlyOrdered compare (before ++ d :: after) := hl ▸ h.ordered
    have hset := keyedSet_remove_present hc ho h0
    refine ⟨?_, htrim.balanced hfits, rfl, ?_, ?_⟩
    · rw [hl, hset, hafter, hone]
    · have hkeep := keyedSet_strictlyOrdered hc ho (.remove key)
      rw [hset] at hkeep
      exact hafter ▸ hkeep
    · change t.numNodes - UInt32.ofNat s.freed = UInt32.ofNat (traverseInorder s.node).length
      rw [h.counted, hfreed, hafter, hl, List.length_append, List.length_append, List.length_cons,
        ← Nat.add_assoc, UInt32.ofNat_add]
      simp
  · have habsent : ∀ d ∈ traverseInorder t.root, compare key d ≠ 0 :=
      fun d hd h0 => hex ⟨d, hd, h0⟩
    have hnone : firstMatch compare key t.root = none := by
      apply firstMatch_eq_none
      intro d hd
      rw [h3.toInt8_eq]
      exact habsent d hd
    obtain ⟨s', hrm, hdisp, hfreed, hsame⟩ := avltreeRemoveAt_of_none true hnone
    obtain rfl : s = s' := Option.some.inj (hs'.symm.trans hrm)
    have hset := keyedSet_remove_absent (hin ▸ habsent)
    refine ⟨?_, htrim.balanced hfits, rfl, ?_, ?_⟩
    · rw [hset, hsame, hin, hdisp]
    · exact hsame ▸ hs
    · change t.numNodes - UInt32.ofNat s.freed = UInt32.ofNat (traverseInorder s.node).length
      rw [h.counted, hfreed, hsame, hin]
      simp

/-- A permitted call of the AVL tree is the call of the set. -/
theorem avlCall_specified (h : AvlHolds compare t l) {call : KeyedCall D}
    (hpermit : AvlPermits compare t call) :
    ∃ t', avlCall compare t call = some (t', (keyedSet compare l call).2) ∧
      AvlHolds compare t' (keyedSet compare l call).1 := by
  cases call with
  | attach data =>
    obtain ⟨t', ht', hholds⟩ := h.attach hc hpermit
    exact ⟨t', by rw [avlCall, ht']; rfl, hholds⟩
  | remove key =>
    obtain ⟨t', disposed, ht', hset, hholds⟩ := h.remove hc h3 hpermit
    rw [hset]
    exact ⟨t', by rw [avlCall, ht']; rfl, hholds⟩
  | lookup key =>
    refine ⟨t, ?_, h⟩
    rw [avlCall, bstreeLookup, isSome_lookup_eq_any hc (h.inorder ▸ h.ordered), h.inorder]
    rfl

end Avl

/-! ### The red-black tree -/

/-- One call with memory for a node and a callback; a fresh node has the colour that its memory
held. -/
def rbCall [DecidableEq D] (compare : D → D → ℤ) (fresh : TreeTag UInt32 D → UInt32)
    (t : TreeTag UInt32 D) : KeyedCall D → Option (TreeTag UInt32 D × KeyedAnswer D)
  | .attach data => (rbtreeAttach compare t data (some (fresh t))).map fun r => (r.2, .attached)
  | .remove key =>
    (rbtreeRemove compare true t key).map fun (_, tree, disposed) => (tree, .removed disposed)
  | .lookup key => some (t, .found (bstreeLookup compare t key))

/-- Fresh nodes are red, and no key is removed whose removal `rebalance` cannot mend or does not
report. -/
def RbPermits (compare : D → D → ℤ) (fresh : TreeTag UInt32 D → UInt32) (t : TreeTag UInt32 D) :
    KeyedCall D → Prop
  | .attach _ => fresh t = red
  | .remove key => Mends compare t.root key ∧ Reports compare true t.root key
  | .lookup _ => True

structure RbHolds (compare : D → D → ℤ) (t : TreeTag UInt32 D) (l : List D) : Prop where
  search : RedBlackSearch compare t.root
  inorder : traverseInorder t.root = l

section RedBlack

variable (hc : TotalPreorder compare) (h3 : ThreeWay compare)
  {fresh : TreeTag UInt32 D → UInt32} {t : TreeTag UInt32 D} {l : List D}
include hc

theorem RbHolds.attach (h : RbHolds compare t l) (data : D) :
    ∃ t', rbtreeAttach compare t data (some red) = some (.success, t') ∧
      RbHolds compare t' (insertAbsent compare data l) := by
  have hs := h.search
  obtain ⟨root, hroot, hmend⟩ :=
    rbNodeAttach_mended compare data hs.noRedRed ((blackBalanced_iff _).mpr hs.blackCount)
  obtain ⟨root', hroot', hne, hin⟩ := rbNodeAttach_exists hc data red hs.ordered
  obtain rfl : root = root' := Option.some.inj (hroot.symm.trans hroot')
  cases root with
  | null => exact absurd rfl hne
  | node d c tl tr =>
    obtain ⟨hn, hb⟩ := hmend.blacken
    have hin' : traverseInorder (.node d black tl tr) = insertAbsent compare data l :=
      hin.trans (congrArg (insertAbsent compare data) h.inorder)
    refine ⟨⟨t.numNodes + 1, .node d black tl tr⟩, ?_, ?_, hin'⟩
    · rw [rbtreeAttach, hroot]
      rfl
    · refine ⟨hn, (blackBalanced_iff _).mp hb, .inr ⟨d, tl, tr, rfl⟩, ?_⟩
      change StrictlyOrdered compare (traverseInorder (.node d black tl tr))
      rw [hin', ← h.inorder]
      exact hs.ordered.insertAbsent hc data

include h3

variable [DecidableEq D]

theorem RbHolds.remove (h : RbHolds compare t l) {key : D}
    (hpermit : RbPermits compare fresh t (.remove key)) :
    ∃ status t' disposed, rbtreeRemove compare true t key = some (status, t', disposed) ∧
      keyedSet compare l (.remove key) = (traverseInorder t'.root, .removed disposed) ∧
      RedBlackSearch compare t'.root := by
  obtain ⟨hmends, hreports⟩ := hpermit
  have hs := h.search
  have hmatch : RemovesMatch compare true t key := by
    by_cases hex : ∃ d ∈ traverseInorder t.root, compare key d = 0
    · obtain ⟨d, hd, h0⟩ := hex
      obtain ⟨c, tl, tr, hm⟩ := firstMatch_of_mem hc h3 hs.ordered hd h0
      apply removesMatch_of_firstMatch hc h3 true hs hm hmends
      rintro rfl
      exact hreports c tl tr hm
    · apply removesMatch_of_absent h3 true hs
      exact fun d hd h0 => hex ⟨d, hd, h0⟩
  obtain ⟨status, t', disposed, hrun, hsearch, hcase⟩ := hmatch
  refine ⟨status, t', disposed, hrun, ?_, hsearch⟩
  rw [← h.inorder]
  rcases hcase with ⟨before, d, after, h0, hin, hin', rfl⟩ | ⟨habsent, hroot, rfl⟩
  · have ho := hs.ordered
    rw [hin] at ho
    rw [hin, hin', keyedSet_remove_present hc ho h0]
    rfl
  · rw [hroot, keyedSet_remove_absent habsent]

theorem rbCall_specified (h : RbHolds compare t l) {call : KeyedCall D}
    (hpermit : RbPermits compare fresh t call) :
    ∃ t', rbCall compare fresh t call = some (t', (keyedSet compare l call).2) ∧
      RbHolds compare t' (keyedSet compare l call).1 := by
  cases call with
  | attach data =>
    obtain ⟨t', ht', hholds⟩ := h.attach hc data
    exact ⟨t', by rw [rbCall, show fresh t = red from hpermit, ht']; rfl, hholds⟩
  | remove key =>
    obtain ⟨status, t', disposed, ht', hset, hsearch⟩ := h.remove hc h3 hpermit
    rw [hset]
    exact ⟨t', by rw [rbCall, ht']; rfl, hsearch, rfl⟩
  | lookup key =>
    refine ⟨t, ?_, h⟩
    rw [rbCall, bstreeLookup, isSome_lookup_eq_any hc h.search.ordered, h.inorder]
    rfl

end RedBlack

/-! ### The binary search tree in memory -/

section Bst

variable {A : Type u} [DecidableEq A]

/-- One call with a callback; `malloc` finds memory for a node. -/
def bstCall (compare : D → D → ℤ) (fuel : ℕ) (malloc : BstMemory A D → A) (s : BstTag A D) :
    KeyedCall D → Option (BstTag A D × KeyedAnswer D)
  | .attach data =>
    (bstreeAttachIn compare fuel s data (some (malloc s.memory))).map fun r => (r.2, .attached)
  | .remove key =>
    (bstreeRemoveIn compare fuel true s key).map fun (_, tag, disposed) =>
      (tag, .removed disposed)
  | .lookup key => (bstreeLookupIn compare fuel s key).map fun found => (s, .found found)

omit [DecidableEq A] in
/-- The memory found is free, no equal datum is attached, and no node removed whose right child is
its successor. -/
def BstPermits (compare : D → D → ℤ) (malloc : BstMemory A D → A) (s : BstTag A D) :
    KeyedCall D → Prop
  | .attach data => s.memory (malloc s.memory) = none ∧
      ∀ t, s.Holds t → ∀ d ∈ traverseInorder t, compare data d ≠ 0
  | .remove key => s.Meets compare (.remove key)
  | .lookup _ => True

omit [DecidableEq A] in
def BstHolds (compare : D → D → ℤ) (n : ℕ) (s : BstTag A D) (l : List D) : Prop :=
  ∃ t, s.Holds t ∧ traverseInorder t = l ∧ StrictlyOrdered compare l ∧ l.length ≤ n

omit [DecidableEq A] in
theorem bstreeLookupIn_eq {fuel : ℕ} {s : BstTag A D} {t : Node A D} (ht : s.Holds t)
    (hfuel : t.size ≤ fuel) (key : D) :
    bstreeLookupIn compare fuel s key = some (lookup compare key t).isSome := by
  have hrep := ht.represents
  rw [bstreeLookupIn]
  cases hroot : s.root with
  | none =>
    rw [hroot] at hrep
    rw [represents_none hrep]
    rfl
  | some root =>
    rw [hroot] at hrep
    dsimp only
    cases hfound : lookup compare key t with
    | none =>
      obtain ⟨parent, hlookup⟩ := lookupIn_none hrep hfuel hfound none
      rw [hlookup]
      rfl
    | some m =>
      cases m with
      | null => exact absurd hfound (lookup_ne_null key t)
      | node d a tl tr =>
        obtain ⟨fs, -, hlookup⟩ := lookupIn_some hrep hfuel hfound none
        rw [hlookup]
        rfl

variable (hc : TotalPreorder compare) {fuel n : ℕ} {malloc : BstMemory A D → A} {s : BstTag A D}
  {l : List D}
include hc

theorem bstCall_specified (hn : n < fuel) (h : BstHolds compare n s l) {call : KeyedCall D}
    (hpermit : BstPermits compare malloc s call) :
    ∃ s', bstCall compare fuel malloc s call = some (s', (keyedSet compare l call).2) ∧
      BstHolds compare (n + 1) s' (keyedSet compare l call).1 := by
  obtain ⟨t, ht, rfl, hs, hlength⟩ := h
  have hle := length_keyedSet_le compare (traverseInorder t) call
  have hs' := keyedSet_strictlyOrdered hc hs call
  have hsize : t.size ≤ fuel := by
    rw [← length_traverseInorder]
    omega
  cases call with
  | attach data =>
    obtain ⟨hfresh, habsent⟩ := hpermit
    obtain ⟨s', hrun, -, ht'⟩ := bstreeAttachIn_holds ht hsize data hfresh
    refine ⟨s', by rw [bstCall, hrun]; rfl, _, ht', ?_, hs', by omega⟩
    rw [traverseInorder_nodeAttach hc data _ hs.ordered]
    exact (insertAbsent_eq_insertAfter (habsent t ht)).symm
  | remove key =>
    cases hfound : lookup compare key t with
    | none =>
      have habsent : ∀ d ∈ traverseInorder t, compare key d ≠ 0 := by
        intro d hd h0
        have hsome := (lookup_isSome hc key hs.ordered).mpr ⟨d, hd, h0⟩
        rw [hfound] at hsome
        cases hsome
      have hrun := bstreeRemoveIn_absent true ht hsize hfound
      have hset := keyedSet_remove_absent habsent
      refine ⟨s, by rw [bstCall, hrun, hset]; rfl, t, ht, ?_, hs', by omega⟩
      rw [hset]
    | some m =>
      cases m with
      | null => exact absurd hfound (lookup_ne_null key t)
      | node d a tl tr =>
        obtain ⟨s', t', before, after, hrun, -, ht', hin, hin'⟩ :=
          bstreeRemoveIn_removes compare true ht hsize hfound (hpermit t d a tl tr ht hfound)
        have hset : keyedSet compare (traverseInorder t) (.remove key) =
            (traverseInorder t', .removed [d]) := by
          rw [hin] at hs ⊢
          rw [keyedSet_remove_present hc hs (mem_of_lookup hfound).2, hin']
        refine ⟨s', by rw [bstCall, hrun, hset]; rfl, t', ht', ?_, hs', by omega⟩
        rw [hset]
  | lookup key =>
    refine ⟨s, ?_, t, ht, rfl, hs, by omega⟩
    rw [bstCall, bstreeLookupIn_eq ht hsize, isSome_lookup_eq_any hc hs]
    rfl

end Bst

/-! ### Runs -/

section Runs

variable [DecidableEq D] (hc : TotalPreorder compare) (h3 : ThreeWay compare)
include hc h3

theorem avl_run_holds {calls : List (KeyedCall D)}
    (hpermit : Along (changes (avlCall compare)) (AvlPermits compare) treeCreate calls) :
    ∃ t, answersFrom (avlCall compare) treeCreate calls =
        some (t, (specified (keyedSet compare) [] calls).2) ∧
      AvlHolds compare t (specified (keyedSet compare) [] calls).1 := by
  have hempty : AvlHolds compare treeCreate [] := ⟨trivial, rfl, List.Pairwise.nil, rfl⟩
  apply answersFrom_specified (R := fun _ => AvlHolds compare) _ (Nat.zero_add _).le hempty hpermit
  intro n t l call _ hholds hcall
  exact avlCall_specified hc h3 hholds hcall

theorem rb_run_holds {fresh : TreeTag UInt32 D → UInt32} {calls : List (KeyedCall D)}
    (hpermit : Along (changes (rbCall compare fresh)) (RbPermits compare fresh) treeCreate calls) :
    ∃ t, answersFrom (rbCall compare fresh) treeCreate calls =
        some (t, (specified (keyedSet compare) [] calls).2) ∧
      RbHolds compare t (specified (keyedSet compare) [] calls).1 := by
  have hempty : RbHolds compare treeCreate [] :=
    ⟨⟨trivial, by simp [treeCreate, pathBlacks], .inl rfl, List.Pairwise.nil⟩, rfl⟩
  apply answersFrom_specified (R := fun _ => RbHolds compare) _ (Nat.zero_add _).le hempty hpermit
  intro n t l call _ hholds hcall
  exact rbCall_specified hc h3 hholds hcall

omit h3 [DecidableEq D] in
theorem bst_run_holds {A : Type u} [DecidableEq A] {malloc : BstMemory A D → A}
    {calls : List (KeyedCall D)} {fuel : ℕ} (hfuel : calls.length ≤ fuel)
    (hpermit : Along (changes (bstCall compare fuel malloc)) (BstPermits compare malloc)
      bstreeCreate calls) :
    ∃ s, answersFrom (bstCall compare fuel malloc) bstreeCreate calls =
        some (s, (specified (keyedSet compare) [] calls).2) ∧
      BstHolds compare (0 + calls.length) s (specified (keyedSet compare) [] calls).1 := by
  have hempty : BstHolds compare 0 (bstreeCreate : BstTag A D) [] :=
    ⟨.null, ⟨rfl, List.nodup_nil, fun _ _ => rfl⟩, rfl, List.Pairwise.nil, le_refl 0⟩
  have hlength : 0 + calls.length ≤ fuel := by omega
  apply answersFrom_specified _ hlength hempty hpermit
  intro n s l call hn hholds hcall
  exact bstCall_specified hc hn hholds hcall

/-- Every permitted run of the AVL tree is a run of the set; the tree counts its data, and a
search makes at most twice as many comparisons as their number has binary digits. -/
theorem avl_run_specified (calls : List (KeyedCall D))
    (hpermit : Along (changes (avlCall compare)) (AvlPermits compare) treeCreate calls) :
    ∃ t, answersFrom (avlCall compare) treeCreate calls =
        some (t, (specified (keyedSet compare) [] calls).2) ∧
      traverseInorder t.root = (specified (keyedSet compare) [] calls).1 ∧
      t.numNodes = UInt32.ofNat t.root.size ∧
      ∀ key, comparisons compare key t.root ≤ 2 * Nat.log 2 (t.root.size + 1) := by
  obtain ⟨t, ht, hholds⟩ := avl_run_holds hc h3 hpermit
  refine ⟨t, ht, hholds.inorder, ?_, ?_⟩
  · rw [hholds.counted, ← length_traverseInorder, hholds.inorder]
  · intro key
    exact (comparisons_le_height key t.root).trans (height_le_log_of_balanced hholds.balanced)

def fourKeys : List (KeyedCall (ℤ × ℕ)) :=
  [.attach (2, 0), .attach (1, 1), .attach (3, 2), .attach (4, 3), .remove (1, 9), .lookup (1, 9),
    .lookup (4, 9)]

omit hc h3 [DecidableEq D] in
theorem fourKeys_avl :
    Along (changes (avlCall compareKeySigns)) (AvlPermits compareKeySigns) treeCreate fourKeys := by
  refine ⟨by simp [AvlPermits, treeCreate], ?_⟩
  rintro _ ⟨⟩
  refine ⟨(by decide : ∀ d ∈ [((2 : ℤ), 0)], compareKeySigns (1, 1) d ≠ 0), ?_⟩
  rintro _ ⟨⟩
  refine ⟨(by decide : ∀ d ∈ [((1 : ℤ), 1), (2, 0)], compareKeySigns (3, 2) d ≠ 0), ?_⟩
  rintro _ ⟨⟩
  refine ⟨(by decide : ∀ d ∈ [((1 : ℤ), 1), (2, 0), (3, 2)], compareKeySigns (4, 3) d ≠ 0), ?_⟩
  rintro _ ⟨⟩
  refine ⟨⟨by decide, trivial, fun _ _ => by decide⟩, ?_⟩
  rintro _ ⟨⟩
  exact ⟨trivial, fun _ _ => ⟨trivial, fun _ _ => trivial⟩⟩

omit hc h3 [DecidableEq D] in
theorem avl_run_specified_example :
    ∃ t, answersFrom (avlCall compareKeySigns) treeCreate fourKeys =
        some (t, [.attached, .attached, .attached, .attached, .removed [(1, 1)], .found false,
          .found true]) ∧
      traverseInorder t.root = [(2, 0), (3, 2), (4, 3)] ∧ t.numNodes = 3 := by
  obtain ⟨t, ht, hin, hnum, -⟩ := avl_run_specified compareKeySigns_preorder
    compareKeySigns_threeWay fourKeys fourKeys_avl
  refine ⟨t, ht, hin, ?_⟩
  rw [hnum, ← length_traverseInorder, hin]
  rfl

/-- Every permitted run of the red-black tree is a run of the set, with searches as short;
attaching equal data is permitted. -/
theorem rb_run_specified (fresh : TreeTag UInt32 D → UInt32) (calls : List (KeyedCall D))
    (hpermit : Along (changes (rbCall compare fresh)) (RbPermits compare fresh) treeCreate calls) :
    ∃ t, answersFrom (rbCall compare fresh) treeCreate calls =
        some (t, (specified (keyedSet compare) [] calls).2) ∧
      traverseInorder t.root = (specified (keyedSet compare) [] calls).1 ∧
      ∀ key, comparisons compare key t.root ≤ 2 * Nat.log 2 (t.root.size + 1) := by
  obtain ⟨t, ht, hholds⟩ := rb_run_holds hc h3 hpermit
  refine ⟨t, ht, hholds.inorder, ?_⟩
  intro key
  exact (comparisons_le_height key t.root).trans (height_le_log_of_redBlackSearch hholds.search)

omit hc h3 [DecidableEq D] in
theorem fourKeys_rb :
    Along (changes (rbCall compareKeySigns fun _ => red))
      (RbPermits compareKeySigns fun _ => red) treeCreate fourKeys := by
  refine ⟨rfl, ?_⟩
  rintro _ ⟨⟩
  refine ⟨rfl, ?_⟩
  rintro _ ⟨⟩
  refine ⟨rfl, ?_⟩
  rintro _ ⟨⟩
  refine ⟨rfl, ?_⟩
  rintro _ ⟨⟩
  refine ⟨⟨⟨trivial, fun _ => ?_⟩, fun c l r hm => ?_⟩, ?_⟩
  · exact ⟨by decide, fun hpos => absurd hpos (by decide)⟩
  · cases hm
  · rintro _ ⟨⟩
    exact ⟨trivial, fun _ _ => ⟨trivial, fun _ _ => trivial⟩⟩

omit hc h3 [DecidableEq D] in
theorem rb_run_specified_example :
    ∃ t, answersFrom (rbCall compareKeySigns fun _ => red) treeCreate fourKeys =
        some (t, [.attached, .attached, .attached, .attached, .removed [(1, 1)], .found false,
          .found true]) ∧
      traverseInorder t.root = [(2, 0), (3, 2), (4, 3)] := by
  obtain ⟨t, ht, hin, -⟩ := rb_run_specified compareKeySigns_preorder
    compareKeySigns_threeWay (fun _ => red) fourKeys fourKeys_rb
  exact ⟨t, ht, hin⟩

/-- In a run that all three permit, the tree in memory, the AVL tree and the red-black tree give
the same answers and end with the same data. -/
theorem three_trees_agree {A : Type u} [DecidableEq A] (malloc : BstMemory A D → A)
    (fresh : TreeTag UInt32 D → UInt32) (calls : List (KeyedCall D)) {fuel : ℕ}
    (hfuel : calls.length ≤ fuel)
    (hbst : Along (changes (bstCall compare fuel malloc)) (BstPermits compare malloc)
      bstreeCreate calls)
    (havl : Along (changes (avlCall compare)) (AvlPermits compare) treeCreate calls)
    (hrb : Along (changes (rbCall compare fresh)) (RbPermits compare fresh) treeCreate calls) :
    ∃ answers s t avl rb,
      answersFrom (bstCall compare fuel malloc) bstreeCreate calls = some (s, answers) ∧
      answersFrom (avlCall compare) treeCreate calls = some (avl, answers) ∧
      answersFrom (rbCall compare fresh) treeCreate calls = some (rb, answers) ∧
      s.Holds t ∧ traverseInorder t = traverseInorder avl.root ∧
      traverseInorder t = traverseInorder rb.root := by
  obtain ⟨s, hs, t, ht, hin, -⟩ := bst_run_holds hc hfuel hbst
  obtain ⟨avl, havl, hholds⟩ := avl_run_holds hc h3 havl
  obtain ⟨rb, hrb, hholds'⟩ := rb_run_holds hc h3 hrb
  exact ⟨_, s, t, avl, rb, hs, havl, hrb, ht, hin.trans hholds.inorder.symm,
    hin.trans hholds'.inorder.symm⟩

def firstFree (memory : BstMemory ℕ (ℤ × ℕ)) : ℕ :=
  ((List.range 4).find? fun a => (memory a).isNone).getD 4

omit hc h3 [DecidableEq D] in
theorem fourKeys_bst :
    Along (changes (bstCall compareKeySigns 7 firstFree)) (BstPermits compareKeySigns firstFree)
      bstreeCreate fourKeys := by
  refine ⟨⟨rfl, fun t ht d hd => ?_⟩, ?_⟩
  · obtain rfl := represents_none ht.represents
    cases hd
  rintro _ ⟨⟩
  refine ⟨⟨rfl, fun t ht => ?_⟩, ?_⟩
  · obtain rfl : t = .leaf 0 (2, 0) := ht.represents.unique (represents_leaf rfl)
    decide
  rintro _ ⟨⟩
  refine ⟨⟨rfl, fun t ht => ?_⟩, ?_⟩
  · obtain rfl : t = .node (2, 0) 0 (.leaf 1 (1, 1)) .null :=
      ht.represents.unique ⟨rfl, some 1, none, rfl, represents_leaf rfl, rfl⟩
    decide
  rintro _ ⟨⟩
  refine ⟨⟨rfl, fun t ht => ?_⟩, ?_⟩
  · obtain rfl : t = .node (2, 0) 0 (.leaf 1 (1, 1)) (.leaf 2 (3, 2)) :=
      ht.represents.unique ⟨rfl, some 1, some 2, rfl, represents_leaf rfl, represents_leaf rfl⟩
    decide
  rintro _ ⟨⟩
  refine ⟨fun t d a l r ht hfound => ?_, fun _ _ => ⟨trivial, fun _ _ => ⟨trivial, fun _ _ =>
    trivial⟩⟩⟩
  obtain rfl : t = .node (2, 0) 0 (.leaf 1 (1, 1)) (.node (3, 2) 2 .null (.leaf 3 (4, 3))) :=
    ht.represents.unique ⟨rfl, some 1, some 2, rfl, represents_leaf rfl, rfl, none, some 3, rfl,
      rfl, represents_leaf rfl⟩
  cases hfound
  rintro ⟨rd, ra, rr, ⟨⟩⟩

omit hc h3 [DecidableEq D] in
theorem three_trees_agree_example :
    ∃ answers s t avl rb,
      answersFrom (bstCall compareKeySigns 7 firstFree) bstreeCreate fourKeys =
        some (s, answers) ∧
      answersFrom (avlCall compareKeySigns) treeCreate fourKeys = some (avl, answers) ∧
      answersFrom (rbCall compareKeySigns fun _ => red) treeCreate fourKeys =
        some (rb, answers) ∧
      s.Holds t ∧ traverseInorder t = traverseInorder avl.root ∧
      traverseInorder t = traverseInorder rb.root :=
  three_trees_agree compareKeySigns_preorder compareKeySigns_threeWay firstFree (fun _ => red)
    fourKeys (le_refl 7) fourKeys_bst fourKeys_avl fourKeys_rb

end Runs

end MorningProjects.Tree
