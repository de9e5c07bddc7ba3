import MorningProjects.Library.Runs
import MorningProjects.Tree.Agreement
import MorningProjects.Tree.BstHeap

/-!
# Removal from the binary search tree

`retrieve_smallest` moves the parent pointer only when it descends. When the
right child of the node to remove has no left child, the pointer is still the
parent of the node to remove, and the write meant for the candidate's parent
goes there. In every run a removal does its work exactly when it stays clear of
that case.
-/
namespace MorningProjects.Tree
open Library

universe u

variable {A D : Type u} {compare : D → D → ℤ}

section Memory

variable {h h' : BstMemory A D} {p q v : Option A} {fs gs : List (Frame A D)} {f : Frame A D}

/-! ### The last node passed -/

def Frame.cell : Frame A D → (taken other : Option A) → BstCell A D
  | .left d _ _, taken, other => ⟨d, taken, other⟩
  | .right d _ _, taken, other => ⟨d, other, taken⟩

theorem spine_singleton :
    Spine h p [f] v ↔ p = some f.addr ∧ ∃ other, h f.addr = some (f.cell v other) ∧
      Represents h other f.side := by
  cases f with
  | left d a r =>
    constructor
    · rintro ⟨rfl, lp, rp, ha, rfl, hr⟩
      exact ⟨rfl, rp, ha, hr⟩
    · rintro ⟨rfl, rp, ha, hr⟩
      exact ⟨rfl, v, rp, ha, rfl, hr⟩
  | right d a l =>
    constructor
    · rintro ⟨rfl, lp, rp, ha, hl, rfl⟩
      exact ⟨rfl, lp, ha, hl⟩
    · rintro ⟨rfl, lp, ha, hl⟩
      exact ⟨rfl, lp, v, ha, hl, rfl⟩

theorem frameAddresses_concat :
    frameAddresses (fs ++ [f]) = frameAddresses fs ++ f.addr :: addresses f.side := by
  simp [frameAddresses]

theorem parentOf_concat : parentOf (fs ++ [f]) p = some f.addr := by
  simp [parentOf]

/-- Writing the link that the way down takes last leads it elsewhere. -/
theorem Spine.refill (hs : Spine h p (fs ++ [f]) v) :
    ∃ other, h f.addr = some (f.cell v other) ∧ Represents h other f.side ∧
      ∀ h' v', h' f.addr = some (f.cell v' other) → (∀ a ∈ frameAddresses fs, h' a = h a) →
        (∀ a ∈ addresses f.side, h' a = h a) → Spine h' p (fs ++ [f]) v' := by
  obtain ⟨r, hfs, hf⟩ := spine_append.mp hs
  obtain ⟨rfl, other, hcell, hside⟩ := spine_singleton.mp hf
  refine ⟨other, hcell, hside, fun h' v' hcell' hsame hsame' => ?_⟩
  refine spine_append.mpr ⟨some f.addr, hfs.congr hsame, ?_⟩
  exact spine_singleton.mpr ⟨rfl, other, hcell', hside.congr hsame'⟩

theorem not_represents_loop {a : A} {n : BstCell A D} (ha : h a = some n)
    (hloop : n.rightChild = some a) (t : Node A D) : ¬ Represents h (some a) t := by
  intro ht
  cases t with
  | null => cases ht
  | node d c l r =>
    obtain ⟨rfl, lp, rp, ha', hl, hr⟩ := ht.exists_node
    rw [ha] at ha'
    cases ha'
    obtain rfl : rp = some a := hloop
    have heq : Node.node d a l r = r := ht.unique hr
    have hsize := congrArg Node.size heq
    rw [Node.size_node] at hsize
    omega

section Writes

variable [DecidableEq A]

theorem writeLeftChild_eq {a : A} {n : BstCell A D} (ha : h a = some n) (v : Option A) :
    writeLeftChild h (some a) v = some (Function.update h a (some { n with leftChild := v })) := by
  simp [writeLeftChild, ha]

theorem writeRightChild_eq {a : A} {n : BstCell A D} (ha : h a = some n) (v : Option A) :
    writeRightChild h (some a) v =
      some (Function.update h a (some { n with rightChild := v })) := by
  simp [writeRightChild, ha]

theorem freeNode_eq {a : A} {n : BstCell A D} (ha : h a = some n) :
    freeNode h a = some (Function.update h a none) := by
  simp [freeNode, ha]

theorem fill_eq {s : BstTag A D} {a : A} (hs : Spine s.memory s.root fs (some a))
    (hnodup : (frameAddresses fs).Nodup) (ha : a ∉ frameAddresses fs) (v : Option A) :
    ∃ position s', positionToFill s.memory a (parentOf fs none) = some position ∧
      s.fill v position = some s' ∧ s'.numNodes = s.numNodes ∧
      Spine s'.memory s'.root fs v ∧ ∀ b, b ∉ frameAddresses fs → s'.memory b = s.memory b := by
  rcases List.eq_nil_or_concat' fs with rfl | ⟨fs, f, rfl⟩
  · exact ⟨.root, { s with root := v }, rfl, rfl, rfl, rfl, fun b hb => rfl⟩
  · obtain ⟨other, hcell, hside, hrefill⟩ := hs.refill
    rw [frameAddresses_concat] at hnodup ha
    obtain ⟨-, hdf, hdisj⟩ := List.nodup_append.mp hnodup
    obtain ⟨hfside, -⟩ := List.nodup_cons.mp hdf
    have hspine : Spine (Function.update s.memory f.addr (some (f.cell v other))) s.root
        (fs ++ [f]) v := by
      refine hrefill _ v (Function.update_self ..) ?_ ?_
      · intro b hb
        exact Function.update_of_ne (fun heq => hdisj b hb b (by simp [heq]) rfl) _ _
      · intro b hb
        refine Function.update_of_ne ?_ _ _
        rintro rfl
        exact hfside hb
    have hsame : ∀ b, b ∉ frameAddresses (fs ++ [f]) →
        Function.update s.memory f.addr (some (f.cell v other)) b = s.memory b := by
      intro b hb
      refine Function.update_of_ne ?_ _ _
      rintro rfl
      exact hb (by simp [frameAddresses_concat])
    rw [parentOf_concat]
    cases f with
    | left d b r =>
      have hb : s.memory b = some ⟨d, some a, other⟩ := hcell
      refine ⟨.leftOf b, ⟨Function.update s.memory b (some ⟨d, v, other⟩), s.numNodes, s.root⟩,
        ?_, ?_, rfl, hspine, hsame⟩
      · simp [positionToFill, Frame.addr, hb]
      · simp [BstTag.fill, writeLeftChild_eq hb]
    | right d b l =>
      -- the left link leads to the other side, which does not hold the node found
      have hne : other ≠ some a := by
        rintro rfl
        cases l with
        | null => cases hside
        | node e c tl tr =>
          obtain ⟨rfl, -⟩ := hside.exists_node
          simp [Frame.side] at ha
      have hb : s.memory b = some ⟨d, other, some a⟩ := hcell
      refine ⟨.rightOf b, ⟨Function.update s.memory b (some ⟨d, other, v⟩), s.numNodes, s.root⟩,
        ?_, ?_, rfl, hspine, hsame⟩
      · simp [positionToFill, Frame.addr, hb, hne]
      · simp [BstTag.fill, writeRightChild_eq hb]

end Writes

end Memory

/-! ### The smallest node -/

section Smallest

variable {h : BstMemory A D} {a : A} {t : Node A D} {fuel : ℕ}

/-- A way down that turns left only has nothing before it. -/
theorem traverseInorder_leftmost {gs : List (Frame A D)}
    (hgs : ∀ f ∈ gs, ∃ d b r, f = .left d b r) :
    ∃ after, ∀ m, traverseInorder (plug gs m) = traverseInorder m ++ after := by
  induction gs with
  | nil => exact ⟨[], fun m => by simp⟩
  | cons f gs ih =>
    obtain ⟨after, hafter⟩ := ih fun g hg => hgs g (by simp [hg])
    obtain ⟨d, b, r, rfl⟩ := hgs f (by simp)
    refine ⟨after ++ d :: traverseInorder r, fun m => ?_⟩
    rw [plug_cons, Frame.plug, traverseInorder_node, hafter]
    simp

/-- `retrieve_smallest` goes left to the last node and keeps the parent pointer if it is
there already. -/
theorem retrieveSmallest_eq (ht : Represents h (some a) t) (hfuel : t.size ≤ fuel)
    (parent : Option A) :
    ∃ gs d c r, t = plug gs (.node d c .null r) ∧ (∀ f ∈ gs, ∃ d b r, f = .left d b r) ∧
      retrieveSmallest h fuel a parent = some (c, parentOf gs parent) := by
  induction t generalizing a parent fuel with
  | null => cases ht
  | node d c l r ihl ihr =>
    rw [Node.size_node] at hfuel
    obtain ⟨fuel, rfl⟩ : ∃ n, fuel = n + 1 := ⟨fuel - 1, by omega⟩
    obtain ⟨rfl, lp, rp, ha, hl, hr⟩ := ht.exists_node
    simp only [retrieveSmallest, ha, Option.bind_eq_bind, Option.bind_some]
    cases lp with
    | none =>
      obtain rfl := represents_none hl
      exact ⟨[], d, a, r, rfl, by simp, rfl⟩
    | some lp =>
      have hle : l.size ≤ fuel := by omega
      obtain ⟨gs, e, c, cr, hplug, hleft, hrun⟩ := ihl hl hle (some a)
      refine ⟨.left d a r :: gs, e, c, cr, by rw [plug_cons, Frame.plug, ← hplug], ?_, hrun⟩
      intro f hf
      rcases List.mem_cons.mp hf with rfl | hf
      · exact ⟨d, a, r, rfl⟩
      · exact hleft f hf

end Smallest

/-! ### One removal -/

theorem lookup_ne_null {κ : Type*} (key : D) (t : Node κ D) :
    lookup compare key t ≠ some .null := by
  induction t with
  | null =>
    intro h
    cases h
  | node e b tl tr ihl ihr =>
    rw [lookup]
    split_ifs
    · exact ihl
    · exact ihr
    · intro h
      cases h

theorem mem_of_lookup {κ : Type*} {key d : D} {c : κ} {l r t : Node κ D}
    (h : lookup compare key t = some (.node d c l r)) :
    d ∈ traverseInorder t ∧ compare key d = 0 := by
  induction t with
  | null => cases h
  | node e b tl tr ihl ihr =>
    rw [lookup] at h
    split_ifs at h with hlt hgt
    · exact (ihl h).imp_left fun hm => by simp [hm]
    · exact (ihr h).imp_left fun hm => by simp [hm]
    · cases h
      exact ⟨by simp, by omega⟩

section Removal

variable [DecidableEq A] {s : BstTag A D} {t : Node A D} {fuel : ℕ} {key d : D} {a : A}
  {l r : Node A D}

omit [DecidableEq A] in
theorem nodup_plug {fs : List (Frame A D)} {m : Node A D} (h : (addresses (plug fs m)).Nodup) :
    (frameAddresses fs).Nodup ∧ (addresses m).Nodup ∧
      ∀ x ∈ frameAddresses fs, ∀ y ∈ addresses m, x ≠ y := by
  rw [(addresses_plug fs m).nodup_iff] at h
  exact List.nodup_append.mp h

omit [DecidableEq A] in
structure Found (s : BstTag A D) (t : Node A D) (d : D) (a : A) (l r : Node A D)
    (fs : List (Frame A D)) (n : BstCell A D) : Prop where
  plug : t = plug fs (.node d a l r)
  spine : Spine s.memory s.root fs (some a)
  cell : s.memory a = some n
  data : n.data = d
  left : Represents s.memory n.leftChild l
  right : Represents s.memory n.rightChild r

variable (compare) in
/-- Up to the choice of the position `BStree_remove` only reads. -/
theorem bstreeRemoveIn_found (registered : Bool) (ht : s.Holds t) (hfuel : t.size ≤ fuel)
    (hfound : lookup compare key t = some (.node d a l r)) :
    ∃ fs n position, Found s t d a l r fs n ∧
      positionToFill s.memory a (parentOf fs none) = some position ∧
      bstreeRemoveIn compare fuel registered s key =
        (replaceNode fuel s a n position (parentOf fs none)).bind fun s =>
          (freeNode s.memory a).bind fun h =>
            some (.success, ⟨h, s.numNodes - 1, s.root⟩, if registered then [d] else []) := by
  have hrep := ht.represents
  cases hroot : s.root with
  | none =>
    rw [hroot] at hrep
    obtain rfl := represents_none hrep
    cases hfound
  | some root =>
    rw [hroot] at hrep
    obtain ⟨fs, hplug, hlookup⟩ := lookupIn_some hrep hfuel hfound none
    have hnodup := ht.nodup
    rw [hplug] at hrep hnodup
    obtain ⟨q, hspine, hnode⟩ := represents_plug.mp hrep
    obtain ⟨rfl, lp, rp, ha, hl, hr⟩ := hnode
    rw [← hroot] at hspine
    obtain ⟨hfs, -, hdisj⟩ := nodup_plug hnodup
    have hafs : a ∉ frameAddresses fs := fun hm => hdisj a hm a (by simp) rfl
    obtain ⟨position, -, hposition, -⟩ := fill_eq hspine hfs hafs none
    refine ⟨fs, ⟨d, lp, rp⟩, position, ⟨hplug, hspine, ha, rfl, hl, hr⟩, hposition, ?_⟩
    simp only [bstreeRemoveIn, hroot, hlookup, ha, hposition, Option.bind_eq_bind,
      Option.bind_some]
    rfl

theorem replaceNode_promote (fuel : ℕ) {fs : List (Frame A D)} {n : BstCell A D}
    {position : Position A} (ht : s.Holds t) (hf : Found s t d a l .null fs n)
    (hposition : positionToFill s.memory a (parentOf fs none) = some position) :
    ∃ s', replaceNode fuel s a n position (parentOf fs none) = some s' ∧
      s'.numNodes = s.numNodes ∧ Represents s'.memory s'.root (plug fs l) ∧
      ∀ b, b ∉ frameAddresses fs → s'.memory b = s.memory b := by
  have hnodup := ht.nodup
  rw [hf.plug] at hnodup
  obtain ⟨hfs, -, hdisj⟩ := nodup_plug hnodup
  have hafs : a ∉ frameAddresses fs := fun hm => hdisj a hm a (by simp) rfl
  have hnull : n.rightChild = none := hf.right
  obtain ⟨position', s', hposition', hfill, hnum, hspine, hsame⟩ :=
    fill_eq hf.spine hfs hafs n.leftChild
  obtain rfl := Option.some.inj (hposition.symm.trans hposition')
  refine ⟨s', by simp only [replaceNode, hnull, hfill], hnum, ?_, hsame⟩
  refine represents_plug.mpr ⟨n.leftChild, hspine, hf.left.congr fun b hb => hsame b fun hm => ?_⟩
  exact hdisj b hm b (by simp [hb]) rfl

theorem passRightChild_exists {h : BstMemory A D} {c : A} {n : BstCell A D} (hc : h c = some n)
    (v : Option A) :
    ∃ h', passRightChild h c v = some h' ∧ h' c = some { n with rightChild := v } ∧
      ∀ b, b ≠ c → h' b = h b := by
  rw [passRightChild, hc, Option.bind_some]
  by_cases hv : n.rightChild = v
  · refine ⟨h, by rw [if_neg (not_not.mpr hv)], ?_, fun b _ => rfl⟩
    rw [hc, ← hv]
  · refine ⟨Function.update h c (some { n with rightChild := v }), ?_, Function.update_self ..,
      fun b hb => Function.update_of_ne hb _ _⟩
    rw [if_pos hv, writeRightChild_eq hc]

omit [DecidableEq A] in
/-- The addresses of a tree with a node found whose successor lies deeper, all distinct. -/
theorem nodup_deep {fs gs : List (Frame A D)} {e cd : D} {q c : A} {qr cr : Node A D}
    (h : (addresses (plug fs (.node d a l (plug (gs ++ [.left e q qr])
      (.node cd c .null cr))))).Nodup) :
    (frameAddresses fs ++ (addresses l ++ a ::
      (frameAddresses gs ++ q :: addresses qr ++ c :: addresses cr))).Nodup := by
  rw [(addresses_plug _ _).nodup_iff] at h
  have hr := addresses_plug (gs ++ [.left e q qr]) (.node cd c .null cr)
  rw [frameAddresses_concat] at hr
  exact (((hr.cons a).append_left _).append_left _).nodup_iff.mp h

/-- The writes of `replaceNode` once the position is filled: the parent of the candidate takes its
right child, and the candidate takes the children of the node found. -/
theorem replaceNode_eq {s1 : BstTag A D} {n ncell qcell : BstCell A D} {position : Position A}
    {parent : Option A} {root c q : A} (hroot : n.rightChild = some root)
    (hsmallest : retrieveSmallest s.memory fuel root parent = some (c, some q))
    (hfill : s.fill (some c) position = some s1) (ha : s1.memory a = some n)
    (hc : s1.memory c = some ncell) (hq : s1.memory q = some qcell) (haq : a ≠ q) (hcq : c ≠ q) :
    ∃ h', replaceNode fuel s a n position parent = some { s1 with memory := h' } ∧
      h' q = some { qcell with leftChild := ncell.rightChild } ∧
      h' c = some { ncell with leftChild := n.leftChild, rightChild := n.rightChild } ∧
      ∀ b, b ≠ c → b ≠ q → h' b = s1.memory b := by
  have hcu : Function.update s1.memory q (some { qcell with leftChild := ncell.rightChild }) c =
      some ncell := by
    rw [Function.update_of_ne hcq, hc]
  obtain ⟨h', hwrite, hcand, hsame⟩ := passRightChild_exists
    (h := Function.update (Function.update s1.memory q
      (some { qcell with leftChild := ncell.rightChild })) c
        (some { ncell with leftChild := n.leftChild }))
    (Function.update_self ..) n.rightChild
  refine ⟨h', ?_, ?_, hcand, fun b hbc hbq => ?_⟩
  · simp only [replaceNode, hroot, hsmallest, hfill, hc, writeLeftChild_eq hq,
      Option.bind_eq_bind, Option.bind_some, Function.update_of_ne haq, ha, writeLeftChild_eq hcu]
    rw [← hroot, hwrite]
    rfl
  · rw [hsame q hcq.symm, Function.update_of_ne hcq.symm, Function.update_self]
  · rw [hsame b hbc, Function.update_of_ne hbc, Function.update_of_ne hbq]

omit [DecidableEq A] in
/-- Of the addresses around a deep successor none lies above the node found, and the node, the
candidate and its parent are three. -/
theorem distinct_deep {above left between side below : List A} {q c : A}
    (h : (above ++ (left ++ a :: (between ++ q :: side ++ c :: below))).Nodup) :
    above.Nodup ∧ a ∉ above ∧ c ∉ above ∧ q ∉ above ∧ a ≠ c ∧ a ≠ q ∧ c ≠ q ∧
      ∀ b, b ∈ left ∨ b ∈ between ∨ b ∈ side ∨ b ∈ below → b ∉ above ∧ b ≠ c ∧ b ≠ q := by
  obtain ⟨habove, hrest, hdisj⟩ := List.nodup_append.mp h
  have hout : ∀ b ∈ left ++ a :: (between ++ q :: side ++ c :: below), b ∉ above :=
    fun b hb hm => hdisj b hm b hb rfl
  have hrest : ((left ++ a :: between ++ q :: side) ++ c :: below).Nodup := by
    simpa only [List.append_assoc, List.cons_append] using hrest
  obtain ⟨hc, hrest⟩ := List.nodup_cons.mp (List.nodup_middle.mp hrest)
  have hrest : ((left ++ a :: between) ++ q :: (side ++ below)).Nodup := by
    simpa only [List.append_assoc, List.cons_append] using hrest
  obtain ⟨hq, -⟩ := List.nodup_cons.mp (List.nodup_middle.mp hrest)
  simp only [List.mem_append, List.mem_cons, not_or] at hc hq hout
  refine ⟨habove, hout a (by simp), hout c (by simp), hout q (by simp), ?_, ?_, ?_, ?_⟩
  · tauto
  · tauto
  · tauto
  · intro b hb
    refine ⟨hout b (by tauto), ?_, ?_⟩
    · rintro rfl
      tauto
    · rintro rfl
      tauto

/-- A candidate below the right child takes the position and the children of the node found,
and leaves its right child to its parent. -/
theorem replaceNode_relink {fs gs : List (Frame A D)} {n : BstCell A D} {position : Position A}
    {e cd : D} {q c root : A} {qr cr : Node A D} (ht : s.Holds t)
    (hr : r = plug (gs ++ [.left e q qr]) (.node cd c .null cr))
    (hf : Found s t d a l r fs n)
    (hposition : positionToFill s.memory a (parentOf fs none) = some position)
    (hroot : n.rightChild = some root)
    (hsmallest : retrieveSmallest s.memory fuel root (parentOf fs none) = some (c, some q)) :
    ∃ s', replaceNode fuel s a n position (parentOf fs none) = some s' ∧
      s'.numNodes = s.numNodes ∧ s'.memory a = some n ∧
      Represents s'.memory s'.root
        (plug fs (.node cd c l (plug (gs ++ [.left e q qr]) cr))) ∧
      ∀ b, b ∉ addresses t → s'.memory b = s.memory b := by
  have hdistinct := ht.nodup
  rw [hf.plug, hr] at hdistinct
  replace hdistinct := nodup_deep hdistinct
  -- the candidate and its parent before the call
  have hright := hf.right
  rw [hr] at hright
  obtain ⟨link, hgs, hcand⟩ := represents_plug.mp hright
  obtain ⟨rfl, lp, rp, hc, hnull, hcr⟩ := hcand
  obtain rfl : lp = none := hnull
  obtain ⟨other, hq, -, hrefill⟩ := hgs.refill
  have hq : s.memory q = some ⟨e, some c, other⟩ := hq
  obtain ⟨hnodup, hafs, hcfs, hqfs, hac, haq, hcq, hclear⟩ := distinct_deep hdistinct
  -- the writes, one after the other
  obtain ⟨position', s', hposition', hfill, hnum, hspine, hsame⟩ :=
    fill_eq hf.spine hnodup hafs (some c)
  obtain rfl := Option.some.inj (hposition.symm.trans hposition')
  have hq' : s'.memory q = some ⟨e, some c, other⟩ := by rw [hsame q hqfs, hq]
  have hc' : s'.memory c = some ⟨cd, none, rp⟩ := by rw [hsame c hcfs, hc]
  have ha' : s'.memory a = some n := by rw [hsame a hafs, hf.cell]
  obtain ⟨h', hreplace, hqcell, hcand', hkeep⟩ :=
    replaceNode_eq hroot hsmallest hfill ha' hc' hq' haq hcq
  have hold : ∀ b, b ∉ frameAddresses fs ∧ b ≠ c ∧ b ≠ q → h' b = s.memory b := by
    rintro b ⟨hb, hbc, hbq⟩
    rw [hkeep b hbc hbq, hsame b hb]
  refine ⟨⟨h', s'.numNodes, s'.root⟩, hreplace, hnum, ?_, ?_, ?_⟩
  · change h' a = some n
    rw [hkeep a hac haq, ha']
  · change Represents h' s'.root _
    refine represents_plug.mpr ⟨some c, hspine.congr fun b hb => ?_, ?_⟩
    · refine hkeep b ?_ ?_
      · rintro rfl
        exact hcfs hb
      · rintro rfl
        exact hqfs hb
    · refine ⟨rfl, n.leftChild, n.rightChild, hcand', ?_, ?_⟩
      · exact hf.left.congr fun b hb => hold b (hclear b (.inl hb))
      · refine represents_plug.mpr ⟨rp, hrefill h' rp hqcell ?_ ?_, ?_⟩
        · exact fun b hb => hold b (hclear b (.inr (.inl hb)))
        · exact fun b hb => hold b (hclear b (.inr (.inr (.inl hb))))
        · exact hcr.congr fun b hb => hold b (hclear b (.inr (.inr (.inr hb))))
  · intro b hb
    rw [hf.plug, hr, (addresses_plug _ _).mem_iff, List.mem_append, addresses_node,
      List.mem_append, List.mem_cons, (addresses_plug _ _).mem_iff, frameAddresses_concat] at hb
    refine hold b ⟨fun hm => hb (.inl hm), ?_, ?_⟩
    · rintro rfl
      exact hb (by simp)
    · rintro rfl
      exact hb (by simp [Frame.addr])

theorem holds_of_freeNode {s' : BstTag A D} {t' : Node A D} (ht : s.Holds t)
    (hrep : Represents s'.memory s'.root t') (hperm : (addresses t).Perm (a :: addresses t'))
    (hsame : ∀ b, b ∉ addresses t → s'.memory b = s.memory b) (n : UInt32) :
    BstTag.Holds ⟨Function.update s'.memory a none, n, s'.root⟩ t' := by
  have hnodup := hperm.nodup_iff.mp ht.nodup
  obtain ⟨hat, hnodup'⟩ := List.nodup_cons.mp hnodup
  refine ⟨hrep.congr fun b hb => Function.update_of_ne ?_ _ _, hnodup', fun b hb => ?_⟩
  · rintro rfl
    exact hat hb
  · change Function.update s'.memory a none b = none
    by_cases hba : b = a
    · rw [hba, Function.update_self]
    · have hbt : b ∉ addresses t := by
        rw [hperm.mem_iff, List.mem_cons, not_or]
        exact ⟨hba, hb⟩
      rw [Function.update_of_ne hba, hsame b hbt]
      exact ht.only b hbt

omit [DecidableEq A] in
theorem size_le_plug (fs : List (Frame A D)) (m : Node A D) : m.size ≤ (plug fs m).size := by
  obtain ⟨before, after, hin⟩ := traverseInorder_plug fs
  rw [← length_traverseInorder, ← length_traverseInorder, hin, List.length_append,
    List.length_append]
  omega

omit [DecidableEq A] in
theorem addresses_plug_cons {fs : List (Frame A D)} {m m' : Node A D}
    (h : (addresses m).Perm (a :: addresses m')) :
    (addresses (plug fs m)).Perm (a :: addresses (plug fs m')) := by
  refine (addresses_plug fs m).trans ((h.append_left _).trans ?_)
  exact List.perm_middle.trans ((addresses_plug fs m').symm.cons a)

/-- The right child of the node found has no left child. -/
def ShallowSuccessor (r : Node A D) : Prop := ∃ rd ra rr, r = .node rd ra .null rr

variable (compare) in
/-- A removal that finds a node without such a right child takes out its datum. -/
theorem bstreeRemoveIn_removes (registered : Bool) (ht : s.Holds t) (hfuel : t.size ≤ fuel)
    (hfound : lookup compare key t = some (.node d a l r)) (hdeep : ¬ ShallowSuccessor r) :
    ∃ s' t' before after, bstreeRemoveIn compare fuel registered s key =
        some (.success, s', if registered then [d] else []) ∧
      s'.numNodes = s.numNodes - 1 ∧ s'.Holds t' ∧
      traverseInorder t = before ++ d :: after ∧ traverseInorder t' = before ++ after := by
  obtain ⟨fs, n, position, hf, hposition, hrun⟩ :=
    bstreeRemoveIn_found compare registered ht hfuel hfound
  obtain ⟨before, after, hin⟩ := traverseInorder_plug fs
  have hnodup := ht.nodup
  rw [hf.plug] at hnodup
  obtain ⟨-, hdm, hdisj⟩ := nodup_plug hnodup
  cases r with
  | null =>
    obtain ⟨s', hreplace, hnum, hrep, hsame⟩ := replaceNode_promote fuel ht hf hposition
    have ha : s'.memory a = some n := by
      rw [hsame a fun hm => hdisj a hm a (by simp) rfl, hf.cell]
    have hperm : (addresses t).Perm (a :: addresses (plug fs l)) := by
      rw [hf.plug]
      refine addresses_plug_cons ?_
      exact List.perm_append_singleton a _
    have hsame' : ∀ b, b ∉ addresses t → s'.memory b = s.memory b := by
      intro b hb
      refine hsame b fun hm => hb ?_
      rw [hf.plug, (addresses_plug _ _).mem_iff]
      exact List.mem_append_left _ hm
    refine ⟨⟨Function.update s'.memory a none, s'.numNodes - 1, s'.root⟩, plug fs l,
      before ++ traverseInorder l, after, ?_, by rw [hnum],
      holds_of_freeNode ht hrep hperm hsame' _, ?_, ?_⟩
    · rw [hrun, hreplace, Option.bind_some, freeNode_eq ha, Option.bind_some]
    · rw [hf.plug, hin]
      simp
    · rw [hin]
  | node rd ra rl rr =>
    have hroot : n.rightChild = some ra := hf.right.1
    have hrep := hf.right
    rw [hroot] at hrep
    have hle : (Node.node rd ra rl rr).size ≤ fuel := by
      have hplug := size_le_plug fs (.node d a l (.node rd ra rl rr))
      rw [← hf.plug, Node.size_node] at hplug
      omega
    obtain ⟨gs, cd, c, cr, hr, hleft, hsmallest⟩ := retrieveSmallest_eq hrep hle (parentOf fs none)
    obtain ⟨behind, hbehind⟩ := traverseInorder_leftmost hleft
    rcases List.eq_nil_or_concat' gs with rfl | ⟨gs, f, rfl⟩
    · exact absurd ⟨cd, c, cr, hr⟩ hdeep
    · obtain ⟨e, q, qr, rfl⟩ := hleft f (by simp)
      rw [parentOf_concat] at hsmallest
      obtain ⟨s', hreplace, hnum, ha, hrep', hsame⟩ :=
        replaceNode_relink ht hr hf hposition hroot hsmallest
      have hperm : (addresses t).Perm
          (a :: addresses (plug fs (.node cd c l (plug (gs ++ [.left e q qr]) cr)))) := by
        rw [hf.plug, hr]
        refine addresses_plug_cons ?_
        rw [addresses_node, addresses_node]
        refine List.perm_middle.trans (List.Perm.cons a (List.Perm.append_left _ ?_))
        exact addresses_plug_cons (List.Perm.refl _)
      refine ⟨⟨Function.update s'.memory a none, s'.numNodes - 1, s'.root⟩,
        plug fs (.node cd c l (plug (gs ++ [.left e q qr]) cr)),
        before ++ traverseInorder l, traverseInorder (.node rd ra rl rr) ++ after, ?_,
        by rw [hnum], holds_of_freeNode ht hrep' hperm hsame _, ?_, ?_⟩
      · rw [hrun, hreplace, Option.bind_some, freeNode_eq ha, Option.bind_some]
      · rw [hf.plug, hin]
        simp
      · rw [hin, hr, traverseInorder_node, hbehind, hbehind]
        simp

omit [DecidableEq A] in
/-- The addresses around a successor that is the right child itself, with those above the node
found split at its parent `p`. -/
theorem distinct_shallow {above side left below : List A} {p c : A}
    (h : (above ++ p :: side ++ (left ++ a :: c :: below)).Nodup) :
    (above ++ p :: side).Nodup ∧ a ∉ above ++ p :: side ∧ c ∉ above ++ p :: side ∧
      a ≠ c ∧ a ≠ p ∧ c ≠ p ∧ (∀ b, b ∈ above ∨ b ∈ side → b ≠ a ∧ b ≠ c ∧ b ≠ p) ∧
      ∀ b ∈ below, b ∉ above ++ p :: side ∧ b ≠ a ∧ b ≠ c ∧ b ≠ p := by
  obtain ⟨habove, hrest, hdisj⟩ := List.nodup_append.mp h
  have hout : ∀ b ∈ left ++ a :: c :: below, b ∉ above ++ p :: side :=
    fun b hb hm => hdisj b hm b hb rfl
  obtain ⟨ha, hrest⟩ := List.nodup_cons.mp (List.nodup_append.mp hrest).2.1
  obtain ⟨hc, -⟩ := List.nodup_cons.mp hrest
  obtain ⟨hp, -⟩ := List.nodup_cons.mp (List.nodup_middle.mp habove)
  have haout := hout a (by simp)
  have hcout := hout c (by simp)
  refine ⟨habove, haout, hcout, ?_, ?_, ?_, ?_, ?_⟩
  · rintro rfl
    exact ha (by simp)
  · rintro rfl
    exact haout (by simp)
  · rintro rfl
    exact hcout (by simp)
  · intro b hb
    have hbout : b ∈ above ++ p :: side := by
      rw [List.mem_append, List.mem_cons]
      tauto
    refine ⟨?_, ?_, ?_⟩
    · rintro rfl
      exact haout hbout
    · rintro rfl
      exact hcout hbout
    · rintro rfl
      exact hp (List.mem_append.mpr hb)
  · intro b hb
    have hbout := hout b (by simp [hb])
    refine ⟨hbout, ?_, ?_, ?_⟩
    · rintro rfl
      exact ha (by simp [hb])
    · rintro rfl
      exact hc hb
    · rintro rfl
      exact hbout (by simp)

/-- The memory after a removal whose candidate is the right child itself: the left link of the
parent has taken the candidate's right child, and the candidate is its own right child. -/
theorem replaceNode_shallow {fs : List (Frame A D)} {f : Frame A D} {n : BstCell A D}
    {position : Position A} {rd : D} {c : A} {cr : Node A D} {s' : BstTag A D}
    (ht : s.Holds t) (hf : Found s t d a l (.node rd c .null cr) (fs ++ [f]) n)
    (hposition : positionToFill s.memory a (parentOf (fs ++ [f]) none) = some position)
    (hfuel : 0 < fuel)
    (hreplace : replaceNode fuel s a n position (parentOf (fs ++ [f]) none) = some s') :
    ∃ h rp other, h = Function.update s'.memory a none ∧ Represents h rp cr ∧
      Spine h s'.root fs (some f.addr) ∧ Represents h other f.side ∧
      h f.addr = some { f.cell (some c) other with leftChild := rp } ∧
      h c = some ⟨rd, n.leftChild, some c⟩ := by
  have hdistinct := ht.nodup
  rw [hf.plug, (addresses_plug _ _).nodup_iff, frameAddresses_concat] at hdistinct
  simp only [addresses_node, addresses_null, List.nil_append] at hdistinct
  obtain ⟨hroot, lp, rp, hc, hnull, hcr⟩ := hf.right
  obtain rfl : lp = none := hnull
  obtain ⟨hnodup, hafs, hcfs, hac, haf, hcf, habove, hbelow⟩ := distinct_shallow hdistinct
  rw [← frameAddresses_concat] at hnodup hafs hcfs hbelow
  obtain ⟨position', s1, hposition', hfill, hnum, hspine, hsame⟩ :=
    fill_eq hf.spine hnodup hafs (some c)
  obtain rfl := Option.some.inj (hposition.symm.trans hposition')
  obtain ⟨other, hcell, hside, -⟩ := hspine.refill
  obtain ⟨link, hfs, hlast⟩ := spine_append.mp hspine
  obtain ⟨rfl, -⟩ := spine_singleton.mp hlast
  have hc' : s1.memory c = some ⟨rd, none, rp⟩ := by rw [hsame c hcfs, hc]
  have ha' : s1.memory a = some n := by rw [hsame a hafs, hf.cell]
  have hsmallest : retrieveSmallest s.memory fuel c (some f.addr) = some (c, some f.addr) := by
    obtain ⟨fuel, rfl⟩ : ∃ k, fuel = k + 1 := ⟨fuel - 1, by omega⟩
    simp [retrieveSmallest, hc]
  obtain ⟨h', heq, hfcell, hcand, hkeep'⟩ :=
    replaceNode_eq hroot hsmallest hfill ha' hc' hcell haf hcf
  rw [parentOf_concat, heq] at hreplace
  obtain rfl := Option.some.inj hreplace
  rw [hroot] at hcand
  have hkeep : ∀ b, b ≠ a → b ≠ c → b ≠ f.addr → Function.update h' a none b = s1.memory b := by
    intro b hba hbc hbf
    rw [Function.update_of_ne hba, hkeep' b hbc hbf]
  refine ⟨Function.update h' a none, rp, other, rfl, ?_, ?_, ?_, ?_, ?_⟩
  · refine hcr.congr fun b hb => ?_
    obtain ⟨hbfs, hba, hbc, hbf⟩ := hbelow b hb
    rw [hkeep b hba hbc hbf, hsame b hbfs]
  · refine hfs.congr fun b hb => ?_
    obtain ⟨hba, hbc, hbf⟩ := habove b (.inl hb)
    exact hkeep b hba hbc hbf
  · refine hside.congr fun b hb => ?_
    obtain ⟨hba, hbc, hbf⟩ := habove b (.inr hb)
    exact hkeep b hba hbc hbf
  · rw [Function.update_of_ne haf.symm, hfcell]
  · rw [Function.update_of_ne hac.symm, hcand]

variable (compare) in
/-- A removal whose candidate is the right child itself has no result, or leaves something else
than the tree without one datum. -/
theorem bstreeRemoveIn_shallow (registered : Bool) (ht : s.Holds t) (hfuel : t.size ≤ fuel)
    (hfound : lookup compare key t = some (.node d a l r)) (hshallow : ShallowSuccessor r)
    {status : ExitStatus} {s' : BstTag A D} {disposed : List D}
    (hrun : bstreeRemoveIn compare fuel registered s key = some (status, s', disposed))
    {t' : Node A D} (hrep : Represents s'.memory s'.root t') : t'.size + 1 ≠ t.size := by
  obtain ⟨rd, c, cr, rfl⟩ := hshallow
  obtain ⟨fs, n, position, hf, hposition, heq⟩ :=
    bstreeRemoveIn_found compare registered ht hfuel hfound
  have hpos : 0 < fuel := by
    have hplug := size_le_plug fs (.node d a l (.node rd c .null cr))
    rw [← hf.plug, Node.size_node] at hplug
    omega
  rw [heq] at hrun
  obtain ⟨s1, hreplace, hrun⟩ := Option.bind_eq_some_iff.mp hrun
  obtain ⟨h, hfree, hrun⟩ := Option.bind_eq_some_iff.mp hrun
  obtain ⟨cell, -, rfl⟩ := Option.map_eq_some_iff.mp hfree
  cases hrun
  rcases List.eq_nil_or_concat' fs with rfl | ⟨fs, f, rfl⟩
  · -- at the root there is no parent to write to
    obtain ⟨hroot, lp, rp, hc, hnull, -⟩ := hf.right
    obtain rfl : lp = none := hnull
    obtain ⟨k, rfl⟩ : ∃ k, fuel = k + 1 := ⟨fuel - 1, by omega⟩
    obtain rfl : Position.root = position := Option.some.inj hposition
    simp [replaceNode, hroot, retrieveSmallest, hc, parentOf, BstTag.fill,
      writeLeftChild] at hreplace
  · obtain ⟨h, rp, other, hh, hcr, hspine, hside, hparent, hloop⟩ :=
      replaceNode_shallow ht hf hposition hpos hreplace
    rw [← hh] at hrep
    cases f with
    | left e b er =>
      -- the candidate and the left subtree of the node found are lost
      have hlast : Spine h (some b) [.left e b er] rp := ⟨rfl, rp, other, hparent, rfl, hside⟩
      have hplug : Represents h s1.root (plug (fs ++ [.left e b er]) cr) :=
        represents_plug.mpr ⟨rp, spine_append.mpr ⟨some b, hspine, hlast⟩, hcr⟩
      obtain rfl := hrep.unique hplug
      obtain ⟨before, after, hin⟩ := traverseInorder_plug (fs ++ [.left e b er])
      rw [hf.plug, ← length_traverseInorder, ← length_traverseInorder, hin, hin]
      simp
      omega
    | right e b el =>
      -- the candidate leads back to itself
      obtain ⟨m, hm⟩ := hspine.represents hrep
      cases m with
      | null => cases hm
      | node d' a' l' r' =>
        obtain ⟨-, lp', rp', hb', -, hr'⟩ := hm.exists_node
        rw [hparent] at hb'
        cases hb'
        exact absurd hr' (not_represents_loop hloop rfl r')

end Removal

/-! ### Runs -/

inductive BstOp (A D : Type u) where
  | attach (data : D) (malloc : Option A)
  | remove (key : D)

section Run

variable [DecidableEq A]

def bstStep (compare : D → D → ℤ) (registered : Bool) (fuel : ℕ) (s : BstTag A D) :
    BstOp A D → Option (BstTag A D)
  | .attach data malloc => (bstreeAttachIn compare fuel s data malloc).map Prod.snd
  | .remove key => (bstreeRemoveIn compare fuel registered s key).map fun r => r.2.1

omit [DecidableEq A] in
def BstTag.Permits (s : BstTag A D) : BstOp A D → Prop
  | .attach _ malloc => ∀ a, malloc = some a → s.memory a = none
  | .remove _ => True

omit [DecidableEq A] in
/-- The condition on a removal: the right child of the node that the search for the key meets, if
there is one, has a left child. -/
def BstTag.Meets (compare : D → D → ℤ) (s : BstTag A D) : BstOp A D → Prop
  | .attach _ _ => True
  | .remove key => ∀ t d a l r, s.Holds t → lookup compare key t = some (.node d a l r) →
      ¬ ShallowSuccessor r

/-- What a call should do with a tree in memory: an attach adds its datum, a removal of a present
key takes out one matching datum and reports it, and one of an absent key changes nothing. -/
def BstTag.CallMeets (compare : D → D → ℤ) (registered : Bool) (fuel : ℕ) (s : BstTag A D)
    (op : BstOp A D) : Prop :=
  ∀ t, s.Holds t → match op with
    | .attach data malloc => ∃ status s' t',
        bstreeAttachIn compare fuel s data malloc = some (status, s') ∧ s'.Holds t' ∧
        Ordered compare (traverseInorder t')
    | .remove key =>
      ((∃ d ∈ traverseInorder t, compare key d = 0) →
        ∃ s' t' before d after, bstreeRemoveIn compare fuel registered s key =
            some (.success, s', if registered then [d] else []) ∧
          s'.numNodes = s.numNodes - 1 ∧ s'.Holds t' ∧ Ordered compare (traverseInorder t') ∧
          compare key d = 0 ∧ traverseInorder t = before ++ d :: after ∧
          traverseInorder t' = before ++ after) ∧
      ((∀ d ∈ traverseInorder t, compare key d ≠ 0) →
        bstreeRemoveIn compare fuel registered s key = some (.failure, s, []))

omit [DecidableEq A] in
def BstTag.HoldsUpTo (compare : D → D → ℤ) (n : ℕ) (s : BstTag A D) : Prop :=
  ∃ t, s.Holds t ∧ Ordered compare (traverseInorder t) ∧ t.size ≤ n

omit [DecidableEq A] in
theorem bstreeCreate_holdsUpTo : BstTag.HoldsUpTo compare 0 (bstreeCreate : BstTag A D) :=
  ⟨.null, ⟨rfl, List.nodup_nil, fun _ _ => rfl⟩, List.Pairwise.nil, le_refl 0⟩

variable {s : BstTag A D} {n fuel : ℕ}

omit [DecidableEq A] in
/-- The tree in memory is the only one there. -/
theorem BstTag.Holds.unique {t t' : Node A D} (ht : s.Holds t) (ht' : s.Holds t') : t = t' :=
  ht.represents.unique ht'.represents

theorem bstreeRemoveIn_absent (registered : Bool) {t : Node A D} (ht : s.Holds t)
    (hfuel : t.size ≤ fuel) {key : D} (hnone : lookup compare key t = none) :
    bstreeRemoveIn compare fuel registered s key = some (.failure, s, []) := by
  have hrep := ht.represents
  cases hroot : s.root with
  | none => simp only [bstreeRemoveIn, hroot]
  | some root =>
    rw [hroot] at hrep
    obtain ⟨parent, hlookup⟩ := lookupIn_none hrep hfuel hnone none
    simp only [bstreeRemoveIn, hroot, hlookup, Option.bind_eq_bind, Option.bind_some]
    rfl

theorem bstStep_attach (hc : TotalPreorder compare) {t : Node A D} (ht : s.Holds t)
    (ho : Ordered compare (traverseInorder t)) (hfuel : t.size ≤ fuel) {data : D}
    {malloc : Option A} (hpermit : s.Permits (.attach data malloc)) :
    ∃ status s' t', bstreeAttachIn compare fuel s data malloc = some (status, s') ∧
      s'.Holds t' ∧ Ordered compare (traverseInorder t') ∧ t'.size ≤ t.size + 1 := by
  cases malloc with
  | none => exact ⟨.failure, s, t, rfl, ht, ho, by omega⟩
  | some a =>
    obtain ⟨s', hs', -, ht'⟩ := bstreeAttachIn_holds ht hfuel data (hpermit a rfl)
    have hin := traverseInorder_nodeAttach hc data a ho
    refine ⟨.success, s', _, hs', ht', by rw [hin]; exact ho.insertAfter hc data, ?_⟩
    have hlength := congrArg List.length hin
    rw [length_traverseInorder, (insertAfter_perm data _).length_eq, List.length_cons,
      length_traverseInorder] at hlength
    omega

variable (hc : TotalPreorder compare) (registered : Bool)
include hc

theorem callMeets_remove_iff {t : Node A D} (ht : s.Holds t)
    (ho : Ordered compare (traverseInorder t)) (hfuel : t.size ≤ fuel) (key : D) :
    s.CallMeets compare registered fuel (.remove key) ↔ s.Meets compare (.remove key) := by
  constructor
  · intro hcall t' d a l r ht' hfound hshallow
    obtain rfl := ht.unique ht'
    obtain ⟨hd, h0⟩ := mem_of_lookup hfound
    obtain ⟨s', t', before, e, after, hrun, -, hholds, -, -, hin, hin'⟩ :=
      (hcall t ht).1 ⟨d, hd, h0⟩
    refine bstreeRemoveIn_shallow compare registered ht hfuel hfound hshallow hrun
      hholds.represents ?_
    rw [← length_traverseInorder, ← length_traverseInorder, hin, hin']
    simp
    omega
  · intro hmeet t' ht'
    obtain rfl := ht.unique ht'
    have hsome := lookup_isSome hc key ho
    constructor
    · intro hex
      obtain ⟨m, hm⟩ := Option.isSome_iff_exists.mp (hsome.mpr hex)
      cases m with
      | null => exact absurd hm (lookup_ne_null key t)
      | node d a l r =>
        obtain ⟨s', t', before, after, hrun, hnum, hholds, hin, hin'⟩ :=
          bstreeRemoveIn_removes compare registered ht hfuel hm (hmeet t d a l r ht hm)
        refine ⟨s', t', before, d, after, hrun, hnum, hholds, ?_, (mem_of_lookup hm).2, hin, hin'⟩
        rw [hin] at ho
        rw [hin']
        exact ho.sublist (List.Sublist.append_left (List.sublist_cons_self d after) before)
    · intro habsent
      refine bstreeRemoveIn_absent registered ht hfuel ?_
      rw [← Option.not_isSome_iff_eq_none, hsome]
      rintro ⟨d, hd, h0⟩
      exact habsent d hd h0

theorem bstStep_holdsUpTo {op : BstOp A D} {s' : BstTag A D} (hn : n < fuel)
    (h : s.HoldsUpTo compare n) (hpermit : s.Permits op) (hmeet : s.Meets compare op)
    (hstep : bstStep compare registered fuel s op = some s') : s'.HoldsUpTo compare (n + 1) := by
  obtain ⟨t, ht, ho, hsize⟩ := h
  have hfuel : t.size ≤ fuel := by omega
  cases op with
  | attach data malloc =>
    obtain ⟨status, s'', t', hrun, ht', ho', hsize'⟩ := bstStep_attach hc ht ho hfuel hpermit
    rw [bstStep, hrun] at hstep
    obtain rfl := Option.some.inj hstep
    exact ⟨t', ht', ho', by omega⟩
  | remove key =>
    have hcall := (callMeets_remove_iff hc registered ht ho hfuel key).mpr hmeet t ht
    by_cases hex : ∃ d ∈ traverseInorder t, compare key d = 0
    · obtain ⟨s'', t', before, d, after, hrun, -, hholds, ho', -, hin, hin'⟩ := hcall.1 hex
      rw [bstStep, hrun] at hstep
      obtain rfl := Option.some.inj hstep
      refine ⟨t', hholds, ho', ?_⟩
      rw [← length_traverseInorder, hin, List.length_append, List.length_cons] at hsize
      rw [← length_traverseInorder, hin', List.length_append]
      omega
    · have hrun := hcall.2 fun d hd h0 => hex ⟨d, hd, h0⟩
      rw [bstStep, hrun] at hstep
      obtain rfl := Option.some.inj hstep
      exact ⟨t, ht, ho, by omega⟩

/-- In every run of attaches and removals on a new tree every call does what it should exactly
when no removal meets a node whose right child is its successor. -/
theorem bst_run_removes_iff (ops : List (BstOp A D)) {fuel : ℕ} (hfuel : ops.length ≤ fuel)
    (hpermit : Along (bstStep compare registered fuel) BstTag.Permits bstreeCreate ops) :
    Along (bstStep compare registered fuel) (BstTag.CallMeets compare registered fuel)
        bstreeCreate ops ↔
      Along (bstStep compare registered fuel) (BstTag.Meets compare) bstreeCreate ops := by
  refine along_iff_of_counted ?_ (fun n s op s' hn => bstStep_holdsUpTo hc registered hn)
    (by omega : 0 + ops.length ≤ fuel) bstreeCreate_holdsUpTo hpermit
  rintro n s op hn ⟨t, ht, ho, hsize⟩ hop
  have hle : t.size ≤ fuel := by omega
  cases op with
  | attach data malloc =>
    refine ⟨fun _ => trivial, fun _ t' ht' => ?_⟩
    obtain rfl := ht.unique ht'
    obtain ⟨status, s', t', hrun, hholds, ho', -⟩ := bstStep_attach hc ht ho hle hop
    exact ⟨status, s', t', hrun, hholds, ho'⟩
  | remove key => exact callMeets_remove_iff hc registered ht ho hle key

omit hc

def rootAndRight : Node ℕ (ℤ × ℕ) := .node (5, 0) 0 .null (.leaf 1 (8, 1))

def attachTwoRemove (key : ℤ × ℕ) : List (BstOp ℕ (ℤ × ℕ)) :=
  [.attach (5, 0) (some 0), .attach (8, 1) (some 1), .remove key]

theorem attachTwoRemove_permits (key : ℤ × ℕ) :
    Along (bstStep compareKeys registered 3) BstTag.Permits bstreeCreate (attachTwoRemove key) := by
  refine ⟨fun _ _ => rfl, fun s1 h1 => ⟨?_, fun s2 _ => ⟨trivial, fun _ _ => trivial⟩⟩⟩
  cases h1
  rintro a ⟨⟩
  rfl

theorem rootAndRight_holds {s1 s2 : BstTag ℕ (ℤ × ℕ)}
    (h1 : bstStep compareKeys registered 3 bstreeCreate (.attach (5, 0) (some 0)) = some s1)
    (h2 : bstStep compareKeys registered 3 s1 (.attach (8, 1) (some 1)) = some s2) :
    s2.Holds rootAndRight := by
  cases h1
  cases h2
  refine ⟨⟨rfl, none, some 1, rfl, rfl, represents_leaf rfl⟩, by decide, fun a ha => ?_⟩
  obtain ⟨h0, h1⟩ : a ≠ 0 ∧ a ≠ 1 := by simpa [rootAndRight, Node.leaf] using ha
  simp [bstreeCreate, Function.update_of_ne h0, Function.update_of_ne h1]

theorem bst_run_removes_iff_example :
    Along (bstStep compareKeys true 3) (BstTag.CallMeets compareKeys true 3) bstreeCreate
      (attachTwoRemove (8, 9)) := by
  refine (bst_run_removes_iff compareKeys_preorder true (attachTwoRemove (8, 9)) (le_refl 3)
    (attachTwoRemove_permits true (8, 9))).mpr ⟨trivial, fun s1 h1 => ⟨trivial, fun s2 h2 => ⟨?_,
      fun _ _ => trivial⟩⟩⟩
  intro t d a l r ht hfound
  obtain rfl := ht.unique (rootAndRight_holds true h1 h2)
  cases hfound
  rintro ⟨rd, ra, rr, ⟨⟩⟩

/-- The right child of the root has no left child: NULL is written through. -/
theorem bst_run_not_removes :
    Along (bstStep compareKeys true 3) BstTag.Permits bstreeCreate (attachTwoRemove (5, 9)) ∧
      ¬ Along (bstStep compareKeys true 3) (BstTag.CallMeets compareKeys true 3) bstreeCreate
        (attachTwoRemove (5, 9)) := by
  refine ⟨attachTwoRemove_permits true (5, 9), fun halong => ?_⟩
  obtain ⟨s1, h1⟩ : ∃ s1, bstStep compareKeys true 3 bstreeCreate (.attach (5, 0) (some 0)) =
    some s1 := ⟨_, rfl⟩
  obtain ⟨s2, h2⟩ : ∃ s2, bstStep compareKeys true 3 s1 (.attach (8, 1) (some 1)) = some s2 := by
    cases h1
    exact ⟨_, rfl⟩
  have hcall := ((halong.2 s1 h1).2 s2 h2).1 rootAndRight (rootAndRight_holds true h1 h2)
  obtain ⟨s', t', before, d, after, hrun, -⟩ := hcall.1 ⟨(5, 0), by decide, by decide⟩
  cases h1
  cases h2
  have hnone : (none : Option (ExitStatus × BstTag ℕ (ℤ × ℕ) × List (ℤ × ℕ))) = _ := hrun
  cases hnone

end Run

end MorningProjects.Tree
