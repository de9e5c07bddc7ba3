import MorningProjects.Tree.Order

/-!
# The binary search tree in memory

`BStree_remove` relinks nodes in place through a pointer to a link and a parent
pointer that two searches share, so its nodes are modeled with their addresses.
A call has no result when it reads or writes through NULL or a freed node, or
when its recursion goes deeper than `fuel` calls. A tree in memory is described
by a `Node` that carries the address of each node in place of a color.
-/
namespace MorningProjects.Tree
open Library

universe u

/-- `bstree_node_tag` as it lies in memory. -/
structure BstCell (A D : Type u) where
  data : D
  leftChild : Option A
  rightChild : Option A
  deriving DecidableEq, Repr

/-- The nodes that `malloc` returned and that are not freed. -/
abbrev BstMemory (A D : Type u) := A → Option (BstCell A D)

structure BstTag (A D : Type u) where
  memory : BstMemory A D
  numNodes : UInt32
  root : Option A

variable {A D : Type u}

def bstreeCreate : BstTag A D := ⟨fun _ => none, 0, none⟩

section Source

variable [DecidableEq A]

def writeLeftChild (h : BstMemory A D) (p v : Option A) : Option (BstMemory A D) :=
  p.bind fun a => (h a).map fun n => Function.update h a (some { n with leftChild := v })

def writeRightChild (h : BstMemory A D) (p v : Option A) : Option (BstMemory A D) :=
  p.bind fun a => (h a).map fun n => Function.update h a (some { n with rightChild := v })

def freeNode (h : BstMemory A D) (a : A) : Option (BstMemory A D) :=
  (h a).map fun _ => Function.update h a none

variable (compare : D → D → ℤ)

def nodeAttachIn (nodeToAttach : A) : ℕ → BstMemory A D → A → Option (BstMemory A D)
  | 0, _, _ => none
  | fuel + 1, h, nodeToCompare => do
    let new ← h nodeToAttach
    let n ← h nodeToCompare
    if compare new.data n.data < 0 then
      match n.leftChild with
      | some l => nodeAttachIn nodeToAttach fuel h l
      | none => writeLeftChild h (some nodeToCompare) (some nodeToAttach)
    else
      match n.rightChild with
      | some r => nodeAttachIn nodeToAttach fuel h r
      | none => writeRightChild h (some nodeToCompare) (some nodeToAttach)

/-- `BStree_attach`; `malloc` returns an address or NULL. -/
def bstreeAttachIn (fuel : ℕ) (s : BstTag A D) (data : D) : (malloc : Option A) →
    Option (ExitStatus × BstTag A D)
  | none => some (.failure, s)
  | some a =>
    let h := Function.update s.memory a (some ⟨data, none, none⟩)
    match s.root with
    | none => some (.success, ⟨h, s.numNodes + 1, some a⟩)
    | some root =>
      (nodeAttachIn compare a fuel h root).map fun h => (.success, ⟨h, s.numNodes + 1, some root⟩)

/-- `lookup`: the node found, and the value of `*parent_node`. -/
def lookupIn (h : BstMemory A D) (data : D) : ℕ → A → Option A → Option (Option A × Option A)
  | 0, _, _ => none
  | fuel + 1, currentNode, parentNode => do
    let n ← h currentNode
    if compare data n.data < 0 then
      match n.leftChild with
      | some l => lookupIn h data fuel l (some currentNode)
      | none => return (none, parentNode)
    else if compare data n.data > 0 then
      match n.rightChild with
      | some r => lookupIn h data fuel r (some currentNode)
      | none => return (none, parentNode)
    else return (some currentNode, parentNode)

/-- `retrieve_smallest`: the node found, and the value of `*parent_node`. -/
def retrieveSmallest (h : BstMemory A D) : ℕ → A → Option A → Option (A × Option A)
  | 0, _, _ => none
  | fuel + 1, node, parentNode => do
    let n ← h node
    match n.leftChild with
    | some l => retrieveSmallest h fuel l (some node)
    | none => return (node, parentNode)

/-- What `position_to_fill` points to. -/
inductive Position (A : Type u) where
  | root
  | leftOf (parent : A)
  | rightOf (parent : A)

def positionToFill (h : BstMemory A D) (nodeFound : A) : Option A → Option (Position A)
  | none => some .root
  | some parent =>
    (h parent).map fun n => if n.leftChild = some nodeFound then .leftOf parent else .rightOf parent

def BstTag.fill (s : BstTag A D) (v : Option A) : Position A → Option (BstTag A D)
  | .root => some { s with root := v }
  | .leftOf parent =>
    (writeLeftChild s.memory (some parent) v).map fun h => { s with memory := h }
  | .rightOf parent =>
    (writeRightChild s.memory (some parent) v).map fun h => { s with memory := h }

/-- The last write of `BStree_remove` to the candidate, made if it changes anything. -/
def passRightChild (h : BstMemory A D) (candidateNode : A) (v : Option A) :
    Option (BstMemory A D) :=
  (h candidateNode).bind fun candidate =>
    if candidate.rightChild ≠ v then writeRightChild h (some candidateNode) v else some h

/-- The part of `BStree_remove` that fills the position of the node found. -/
def replaceNode (fuel : ℕ) (s : BstTag A D) (nodeFound : A) (n : BstCell A D)
    (position : Position A) (parentNode : Option A) : Option (BstTag A D) :=
  match n.rightChild with
  | some right => do
    let (candidateNode, parentNode) ← retrieveSmallest s.memory fuel right parentNode
    let s ← s.fill (some candidateNode) position
    let candidate ← s.memory candidateNode
    let h ← writeLeftChild s.memory parentNode candidate.rightChild
    -- the children of the node to remove move to the candidate
    let n ← h nodeFound
    let h ← writeLeftChild h (some candidateNode) n.leftChild
    let h ← passRightChild h candidateNode n.rightChild
    return { s with memory := h }
  | none => s.fill n.leftChild position

/-- `BStree_remove`: the new tree and the data passed to the callback. -/
def bstreeRemoveIn (fuel : ℕ) (registered : Bool) (s : BstTag A D) (data : D) :
    Option (ExitStatus × BstTag A D × List D) :=
  match s.root with
  | none => some (.failure, s, [])
  | some root => do
    let (found, parentNode) ← lookupIn compare s.memory data fuel root none
    match found with
    | none => return (.failure, s, [])
    | some nodeFound =>
      let n ← s.memory nodeFound
      let position ← positionToFill s.memory nodeFound parentNode
      let s ← replaceNode fuel s nodeFound n position parentNode
      let h ← freeNode s.memory nodeFound
      return (.success, ⟨h, s.numNodes - 1, s.root⟩, if registered then [n.data] else [])

end Source

/-! ### Trees in memory -/

def Represents (h : BstMemory A D) : Option A → Node A D → Prop
  | p, .null => p = none
  | p, .node d a l r => p = some a ∧ ∃ lp rp, h a = some ⟨d, lp, rp⟩ ∧
      Represents h lp l ∧ Represents h rp r

def addresses : Node A D → List A
  | .null => []
  | .node _ a l r => addresses l ++ a :: addresses r

@[simp] theorem addresses_null : addresses (.null : Node A D) = [] := rfl

@[simp] theorem addresses_node (d : D) (a : A) (l r : Node A D) :
    addresses (.node d a l r) = addresses l ++ a :: addresses r := rfl

/-- A tree with distinct addresses is all that lies in memory. -/
structure BstTag.Holds (s : BstTag A D) (t : Node A D) : Prop where
  represents : Represents s.memory s.root t
  nodup : (addresses t).Nodup
  only : ∀ a, a ∉ addresses t → s.memory a = none

section Represents

variable {h h' : BstMemory A D} {p : Option A} {t t' : Node A D}

theorem Represents.congr (ht : Represents h p t) (hsame : ∀ a ∈ addresses t, h' a = h a) :
    Represents h' p t := by
  induction t generalizing p with
  | null => exact ht
  | node d a l r ihl ihr =>
    obtain ⟨rfl, lp, rp, ha, hl, hr⟩ := ht
    refine ⟨rfl, lp, rp, ?_, ihl hl ?_, ihr hr ?_⟩
    · rw [hsame a (by simp), ha]
    · exact fun b hb => hsame b (by simp [hb])
    · exact fun b hb => hsame b (by simp [hb])

/-- A pointer leads to one tree only, so the memory below it has no cycle. -/
theorem Represents.unique (ht : Represents h p t) (ht' : Represents h p t') : t = t' := by
  induction t generalizing p t' with
  | null =>
    obtain rfl : p = none := ht
    cases t' with
    | null => rfl
    | node d' a' l' r' => cases ht'.1
  | node d a l r ihl ihr =>
    obtain ⟨rfl, lp, rp, ha, hl, hr⟩ := ht
    cases t' with
    | null => cases ht'
    | node d' a' l' r' =>
      obtain ⟨heq, lp', rp', ha', hl', hr'⟩ := ht'
      cases heq
      rw [ha] at ha'
      cases ha'
      rw [ihl hl hl', ihr hr hr']

theorem Represents.isSome (ht : Represents h p t) {a : A} (ha : a ∈ addresses t) :
    (h a).isSome := by
  induction t generalizing p with
  | null => simp at ha
  | node d b l r ihl ihr =>
    obtain ⟨rfl, lp, rp, hb, hl, hr⟩ := ht
    simp only [addresses_node, List.mem_append, List.mem_cons] at ha
    rcases ha with ha | rfl | ha
    · exact ihl hl ha
    · rw [hb]
      rfl
    · exact ihr hr ha

theorem represents_leaf {a : A} {x : D} (ha : h a = some ⟨x, none, none⟩) :
    Represents h (some a) (.leaf a x) :=
  ⟨rfl, none, none, ha, rfl, rfl⟩

end Represents

/-! ### A place in a tree -/

/-- One step of the way down: the node passed, and its other side. -/
inductive Frame (A D : Type u) where
  | left (data : D) (addr : A) (right : Node A D)
  | right (data : D) (addr : A) (left : Node A D)

def Frame.addr : Frame A D → A
  | .left _ a _ | .right _ a _ => a

def Frame.plug : Frame A D → Node A D → Node A D
  | .left d a r, m => .node d a m r
  | .right d a l, m => .node d a l m

def Frame.side : Frame A D → Node A D
  | .left _ _ r => r
  | .right _ _ l => l

/-- The tree with a subtree put in place, the way down starting at the root. -/
def plug (fs : List (Frame A D)) (m : Node A D) : Node A D := fs.foldr Frame.plug m

@[simp] theorem plug_nil (m : Node A D) : plug [] m = m := rfl

@[simp] theorem plug_cons (f : Frame A D) (fs : List (Frame A D)) (m : Node A D) :
    plug (f :: fs) m = f.plug (plug fs m) := rfl

def frameAddresses (fs : List (Frame A D)) : List A :=
  fs.flatMap fun f => f.addr :: addresses f.side

def parentOf (fs : List (Frame A D)) (parent : Option A) : Option A :=
  fs.foldl (fun _ f => some f.addr) parent

theorem addresses_plug (fs : List (Frame A D)) (m : Node A D) :
    (addresses (plug fs m)).Perm (frameAddresses fs ++ addresses m) := by
  induction fs with
  | nil => exact List.Perm.refl _
  | cons f fs ih =>
    rw [plug_cons, frameAddresses, List.flatMap_cons, List.append_assoc]
    cases f with
    | left d a r =>
      refine List.perm_middle.trans (List.Perm.cons a ?_)
      exact (List.perm_append_comm).trans (ih.append_left (addresses r))
    | right d a l =>
      refine List.perm_middle.trans (List.Perm.cons a ?_)
      exact ih.append_left (addresses l)

/-- What stands before and after a place in the traversal. -/
theorem traverseInorder_plug (fs : List (Frame A D)) :
    ∃ before after, ∀ m, traverseInorder (plug fs m) = before ++ traverseInorder m ++ after := by
  induction fs with
  | nil => exact ⟨[], [], fun m => by simp⟩
  | cons f fs ih =>
    obtain ⟨before, after, h⟩ := ih
    cases f with
    | left d a r =>
      refine ⟨before, after ++ d :: traverseInorder r, fun m => ?_⟩
      rw [plug_cons, Frame.plug, traverseInorder_node, h]
      simp
    | right d a l =>
      refine ⟨traverseInorder l ++ d :: before, after, fun m => ?_⟩
      rw [plug_cons, Frame.plug, traverseInorder_node, h]
      simp

/-- A pointer that leads down the frames, to the link `q` at their end. -/
def Spine (h : BstMemory A D) : Option A → List (Frame A D) → Option A → Prop
  | p, [], q => p = q
  | p, .left d a r :: fs, q => p = some a ∧ ∃ lp rp, h a = some ⟨d, lp, rp⟩ ∧
      Spine h lp fs q ∧ Represents h rp r
  | p, .right d a l :: fs, q => p = some a ∧ ∃ lp rp, h a = some ⟨d, lp, rp⟩ ∧
      Represents h lp l ∧ Spine h rp fs q

section Spine

variable {h h' : BstMemory A D} {p q : Option A} {fs gs : List (Frame A D)} {m : Node A D}

theorem represents_plug :
    Represents h p (plug fs m) ↔ ∃ q, Spine h p fs q ∧ Represents h q m := by
  induction fs generalizing p with
  | nil =>
    constructor
    · exact fun hm => ⟨p, rfl, hm⟩
    · rintro ⟨q, rfl, hm⟩
      exact hm
  | cons f fs ih =>
    cases f with
    | left d a r =>
      constructor
      · rintro ⟨rfl, lp, rp, ha, hl, hr⟩
        obtain ⟨q, hs, hm⟩ := ih.mp hl
        exact ⟨q, ⟨rfl, lp, rp, ha, hs, hr⟩, hm⟩
      · rintro ⟨q, ⟨rfl, lp, rp, ha, hs, hr⟩, hm⟩
        exact ⟨rfl, lp, rp, ha, ih.mpr ⟨q, hs, hm⟩, hr⟩
    | right d a l =>
      constructor
      · rintro ⟨rfl, lp, rp, ha, hl, hr⟩
        obtain ⟨q, hs, hm⟩ := ih.mp hr
        exact ⟨q, ⟨rfl, lp, rp, ha, hl, hs⟩, hm⟩
      · rintro ⟨q, ⟨rfl, lp, rp, ha, hl, hs⟩, hm⟩
        exact ⟨rfl, lp, rp, ha, hl, ih.mpr ⟨q, hs, hm⟩⟩

theorem spine_append : Spine h p (fs ++ gs) q ↔ ∃ r, Spine h p fs r ∧ Spine h r gs q := by
  induction fs generalizing p with
  | nil =>
    constructor
    · exact fun hg => ⟨p, rfl, hg⟩
    · rintro ⟨r, rfl, hg⟩
      exact hg
  | cons f fs ih =>
    cases f with
    | left d a r =>
      constructor
      · rintro ⟨rfl, lp, rp, ha, hs, hr⟩
        obtain ⟨x, hs, hg⟩ := ih.mp hs
        exact ⟨x, ⟨rfl, lp, rp, ha, hs, hr⟩, hg⟩
      · rintro ⟨x, ⟨rfl, lp, rp, ha, hs, hr⟩, hg⟩
        exact ⟨rfl, lp, rp, ha, ih.mpr ⟨x, hs, hg⟩, hr⟩
    | right d a l =>
      constructor
      · rintro ⟨rfl, lp, rp, ha, hl, hs⟩
        obtain ⟨x, hs, hg⟩ := ih.mp hs
        exact ⟨x, ⟨rfl, lp, rp, ha, hl, hs⟩, hg⟩
      · rintro ⟨x, ⟨rfl, lp, rp, ha, hl, hs⟩, hg⟩
        exact ⟨rfl, lp, rp, ha, hl, ih.mpr ⟨x, hs, hg⟩⟩

theorem Spine.congr (hs : Spine h p fs q) (hsame : ∀ a ∈ frameAddresses fs, h' a = h a) :
    Spine h' p fs q := by
  induction fs generalizing p with
  | nil => exact hs
  | cons f fs ih =>
    have hhere : h' f.addr = h f.addr := hsame _ (by simp [frameAddresses])
    have hside : ∀ a ∈ addresses f.side, h' a = h a :=
      fun a ha => hsame a (by simp [frameAddresses, ha])
    have hrest : ∀ a ∈ frameAddresses fs, h' a = h a :=
      fun a ha => hsame a (by simp [frameAddresses] at ha ⊢; exact .inr (.inr ha))
    cases f with
    | left d a r =>
      obtain ⟨rfl, lp, rp, ha, hs, hr⟩ := hs
      exact ⟨rfl, lp, rp, by rw [← ha]; exact hhere, ih hs hrest, hr.congr hside⟩
    | right d a l =>
      obtain ⟨rfl, lp, rp, ha, hl, hs⟩ := hs
      exact ⟨rfl, lp, rp, by rw [← ha]; exact hhere, hl.congr hside, ih hs hrest⟩

theorem Spine.represents {t : Node A D} (hs : Spine h p fs q) (ht : Represents h p t) :
    ∃ m, Represents h q m := by
  induction fs generalizing p t with
  | nil =>
    obtain rfl : p = q := hs
    exact ⟨t, ht⟩
  | cons f fs ih =>
    cases f with
    | left d a r =>
      obtain ⟨rfl, lp, rp, ha, hs, -⟩ := hs
      cases t with
      | null => cases ht
      | node d' a' l' r' =>
        obtain ⟨heq, lp', rp', ha', hl', -⟩ := ht
        cases heq
        rw [ha] at ha'
        cases ha'
        exact ih hs hl'
    | right d a l =>
      obtain ⟨rfl, lp, rp, ha, -, hs⟩ := hs
      cases t with
      | null => cases ht
      | node d' a' l' r' =>
        obtain ⟨heq, lp', rp', ha', -, hr'⟩ := ht
        cases heq
        rw [ha] at ha'
        cases ha'
        exact ih hs hr'

end Spine

/-! ### Searches and attaching -/

section Calls

variable [DecidableEq A] {compare : D → D → ℤ} {h : BstMemory A D} {a : A} {t : Node A D}
  {fuel : ℕ}

omit [DecidableEq A] in
theorem Represents.exists_node {d : D} {c b : A} {l r : Node A D}
    (ht : Represents h (some b) (.node d c l r)) :
    b = c ∧ ∃ lp rp, h b = some ⟨d, lp, rp⟩ ∧ Represents h lp l ∧ Represents h rp r := by
  obtain ⟨heq, lp, rp, hc, hl, hr⟩ := ht
  cases heq
  exact ⟨rfl, lp, rp, hc, hl, hr⟩

omit [DecidableEq A] in
theorem represents_none (ht : Represents h none t) : t = .null := by
  cases t with
  | null => rfl
  | node d c l r => cases ht.1

omit [DecidableEq A] in
theorem lookupIn_none {key : D} (ht : Represents h (some a) t) (hfuel : t.size ≤ fuel)
    (hnone : lookup compare key t = none) (parent : Option A) :
    ∃ parent', lookupIn compare h key fuel a parent = some (none, parent') := by
  induction t generalizing a parent fuel with
  | null => cases ht
  | node d c l r ihl ihr =>
    rw [Node.size_node] at hfuel
    obtain ⟨fuel, rfl⟩ : ∃ n, fuel = n + 1 := ⟨fuel - 1, by omega⟩
    obtain ⟨rfl, lp, rp, ha, hl, hr⟩ := ht.exists_node
    rw [lookup] at hnone
    simp only [lookupIn, ha, Option.bind_eq_bind, Option.bind_some]
    split_ifs at hnone ⊢ with hlt hgt
    · cases lp with
      | none => exact ⟨parent, rfl⟩
      | some lp => exact ihl hl (by omega) hnone (some a)
    · cases rp with
      | none => exact ⟨parent, rfl⟩
      | some rp => exact ihr hr (by omega) hnone (some a)

omit [DecidableEq A] in
/-- A search that meets an equal datum stops at its node and remembers the parent. -/
theorem lookupIn_some {key d : D} {q : A} {l r : Node A D} (ht : Represents h (some a) t)
    (hfuel : t.size ≤ fuel) (hfound : lookup compare key t = some (.node d q l r))
    (parent : Option A) :
    ∃ fs, t = plug fs (.node d q l r) ∧
      lookupIn compare h key fuel a parent = some (some q, parentOf fs parent) := by
  induction t generalizing a parent fuel with
  | null => cases ht
  | node e c tl tr ihl ihr =>
    rw [Node.size_node] at hfuel
    obtain ⟨fuel, rfl⟩ : ∃ n, fuel = n + 1 := ⟨fuel - 1, by omega⟩
    obtain ⟨rfl, lp, rp, ha, hl, hr⟩ := ht.exists_node
    rw [lookup] at hfound
    simp only [lookupIn, ha, Option.bind_eq_bind, Option.bind_some]
    split_ifs at hfound ⊢ with hlt hgt
    · cases lp with
      | none =>
        obtain rfl := represents_none hl
        cases hfound
      | some lp =>
        have hle : tl.size ≤ fuel := by omega
        obtain ⟨fs, hplug, hrun⟩ := ihl hl hle hfound (some a)
        exact ⟨.left e a tr :: fs, by rw [plug_cons, Frame.plug, ← hplug], hrun⟩
    · cases rp with
      | none =>
        obtain rfl := represents_none hr
        cases hfound
      | some rp =>
        have hle : tr.size ≤ fuel := by omega
        obtain ⟨fs, hplug, hrun⟩ := ihr hr hle hfound (some a)
        exact ⟨.right e a tl :: fs, by rw [plug_cons, Frame.plug, ← hplug], hrun⟩
    · cases hfound
      exact ⟨[], rfl, rfl⟩

variable (compare) in
/-- `node_attach` in memory does to the tree what `nodeAttach` does. -/
theorem nodeAttachIn_represents {x : D} {new : A} (ht : Represents h (some a) t)
    (hfuel : t.size ≤ fuel) (hdistinct : (addresses t).Nodup)
    (hnew : h new = some ⟨x, none, none⟩) (hfresh : new ∉ addresses t) :
    ∃ h', nodeAttachIn compare new fuel h a = some h' ∧
      Represents h' (some a) (nodeAttach compare x (.leaf new x) t) ∧
      ∀ b, b ∉ addresses t → h' b = h b := by
  induction t generalizing a fuel with
  | null => cases ht
  | node e c l r ihl ihr =>
    rw [Node.size_node] at hfuel
    obtain ⟨fuel, rfl⟩ : ∃ n, fuel = n + 1 := ⟨fuel - 1, by omega⟩
    obtain ⟨rfl, lp, rp, ha, hl, hr⟩ := ht.exists_node
    rw [addresses_node, List.nodup_append] at hdistinct
    obtain ⟨hdl, hdar, hdisj⟩ := hdistinct
    obtain ⟨har, hdr⟩ := List.nodup_cons.mp hdar
    have hal : a ∉ addresses l := fun hm => hdisj a hm a (by simp) rfl
    simp only [addresses_node, List.mem_append, List.mem_cons, not_or] at hfresh
    obtain ⟨hnl, hna, hnr⟩ := hfresh
    rw [nodeAttach]
    simp only [nodeAttachIn, hnew, ha, Option.bind_eq_bind, Option.bind_some]
    split_ifs with hlt
    · cases lp with
      | none =>
        obtain rfl := represents_none hl
        refine ⟨Function.update h a (some ⟨e, some new, rp⟩), by simp [writeLeftChild, ha],
          ⟨rfl, some new, rp, by simp, ?_, ?_⟩, ?_⟩
        · exact represents_leaf (by rw [Function.update_of_ne hna, hnew])
        · refine hr.congr fun b hb => Function.update_of_ne ?_ _ _
          rintro rfl
          exact har hb
        · intro b hb
          refine Function.update_of_ne ?_ _ _
          rintro rfl
          simp at hb
      | some lp =>
        have hle : l.size ≤ fuel := by omega
        obtain ⟨h', hrun, hrep, hsame⟩ := ihl hl hle hdl hnl
        refine ⟨h', hrun, ⟨rfl, some lp, rp, by rw [hsame a hal, ha], hrep, ?_⟩, ?_⟩
        · refine hr.congr fun b hb => hsame b fun hm => ?_
          exact hdisj b hm b (by simp [hb]) rfl
        · intro b hb
          simp only [addresses_node, List.mem_append, not_or] at hb
          exact hsame b hb.1
    · cases rp with
      | none =>
        obtain rfl := represents_none hr
        refine ⟨Function.update h a (some ⟨e, lp, some new⟩), by simp [writeRightChild, ha],
          ⟨rfl, lp, some new, by simp, ?_, ?_⟩, ?_⟩
        · refine hl.congr fun b hb => Function.update_of_ne ?_ _ _
          rintro rfl
          exact hal hb
        · exact represents_leaf (by rw [Function.update_of_ne hna, hnew])
        · intro b hb
          refine Function.update_of_ne ?_ _ _
          rintro rfl
          simp at hb
      | some rp =>
        have hle : r.size ≤ fuel := by omega
        obtain ⟨h', hrun, hrep, hsame⟩ := ihr hr hle hdr hnr
        refine ⟨h', hrun, ⟨rfl, lp, some rp, by rw [hsame a har, ha], ?_, hrep⟩, ?_⟩
        · refine hl.congr fun b hb => hsame b fun hm => ?_
          exact hdisj b hb b (by simp [hm]) rfl
        · intro b hb
          simp only [addresses_node, List.mem_append, List.mem_cons, not_or] at hb
          exact hsame b hb.2.2

omit [DecidableEq A] in
theorem addresses_nodeAttach (x : D) (new : A) (t : Node A D) :
    (addresses (nodeAttach compare x (.leaf new x) t)).Perm (new :: addresses t) := by
  induction t with
  | null => exact List.Perm.refl _
  | node d c l r ihl ihr =>
    rw [nodeAttach]
    split_ifs
    · exact ihl.append_right _
    · exact ((ihr.cons c).append_left _).trans
        (((List.Perm.swap new c _).append_left _).trans List.perm_middle)

/-- `BStree_attach` in memory does what `BStree_attach` does to the tree. -/
theorem bstreeAttachIn_holds {s : BstTag A D} (ht : s.Holds t) (hfuel : t.size ≤ fuel) (x : D)
    {new : A} (hfresh : s.memory new = none) :
    ∃ s', bstreeAttachIn compare fuel s x (some new) = some (.success, s') ∧
      s'.numNodes = s.numNodes + 1 ∧ s'.Holds (nodeAttach compare x (.leaf new x) t) := by
  have hnew : new ∉ addresses t := by
    intro hm
    have := ht.represents.isSome hm
    rw [hfresh] at this
    cases this
  have hperm : (addresses (nodeAttach compare x (.leaf new x) t)).Perm (new :: addresses t) :=
    addresses_nodeAttach x new t
  have hnodup : (addresses (nodeAttach compare x (.leaf new x) t)).Nodup :=
    hperm.nodup_iff.mpr (List.nodup_cons.mpr ⟨hnew, ht.nodup⟩)
  have hcell : Function.update s.memory new (some ⟨x, none, none⟩) new = some ⟨x, none, none⟩ :=
    Function.update_self ..
  have hrep : Represents (Function.update s.memory new (some ⟨x, none, none⟩)) s.root t := by
    refine ht.represents.congr fun b hb => Function.update_of_ne ?_ _ _
    rintro rfl
    exact hnew hb
  obtain ⟨h, n, root⟩ := s
  cases root with
  | none =>
    obtain rfl := represents_none ht.represents
    refine ⟨_, rfl, rfl, represents_leaf hcell, hnodup, fun b hb => ?_⟩
    have hb : b ≠ new := by
      rintro rfl
      exact hb (by simp [nodeAttach, Node.leaf])
    change Function.update h new _ b = none
    rw [Function.update_of_ne hb]
    exact ht.only b (by simp)
  | some root =>
    obtain ⟨h', hrun, hrep', hsame⟩ :=
      nodeAttachIn_represents compare hrep hfuel ht.nodup hcell hnew
    refine ⟨⟨h', n + 1, some root⟩, ?_, rfl, hrep', hnodup, fun b hb => ?_⟩
    · simp only [bstreeAttachIn]
      dsimp only at hrun
      rw [hrun]
      rfl
    · rw [hperm.mem_iff, List.mem_cons, not_or] at hb
      change h' b = none
      rw [hsame b hb.2, Function.update_of_ne hb.1]
      exact ht.only b hb.2

end Calls

end MorningProjects.Tree
