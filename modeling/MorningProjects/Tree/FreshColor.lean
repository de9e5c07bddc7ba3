import MorningProjects.Library.Runs
import MorningProjects.Tree.Node

/-!
# What `malloc` leaves in the color field

`RBtree_attach` clears a fresh node as far as an AVL node reaches, and the color
field lies behind that. Only the root gets a color of its own, so the tree of a
run depends on the memory of every other node.
-/
namespace MorningProjects.Tree
open Library

variable {D : Type*} {compare : D → D → ℤ}

def rbAttachStep (compare : D → D → ℤ) (t : TreeTag UInt32 D) (call : D × Option UInt32) :
    Option (TreeTag UInt32 D) :=
  (rbtreeAttach compare t call.1 call.2).map Prod.snd

def rbAttachAll (compare : D → D → ℤ) (calls : List (D × Option UInt32)) :
    Option (TreeTag UInt32 D) :=
  runFrom (rbAttachStep compare) treeCreate calls

def callsOf (calls : List (D × Option UInt32)) : List (D × Bool) :=
  calls.map fun call => (call.1, call.2.isSome)

/-- Whatever the memory held before, the same calls make the same tree. -/
def DataDetermines (compare : D → D → ℤ) (calls : List (D × Bool)) : Prop :=
  ∀ calls₁ calls₂, callsOf calls₁ = calls → callsOf calls₂ = calls →
    rbAttachAll compare calls₁ = rbAttachAll compare calls₂

def offered (calls : List (D × Bool)) : List D := (calls.filter Prod.snd).map Prod.fst

/-- No datum after the first one gets a node of its own. -/
def SingleNode (compare : D → D → ℤ) (calls : List (D × Bool)) : Prop :=
  ∀ d ds, offered calls = d :: ds → ∀ e ∈ ds, compare e d = 0

/-! ### Nodes of one color -/

def AllColored (color : UInt32) : RbNode D → Prop
  | .null => True
  | .node _ c l r => c = color ∧ AllColored color l ∧ AllColored color r

theorem AllColored.isRed {color : UInt32} {t : RbNode D} (h : AllColored color t)
    (hc : color ≠ red) : isRed t = false := by
  cases t with
  | null => rfl
  | node d c l r =>
    rw [Tree.isRed, h.1]
    simpa using hc

theorem rbRebalance_of_not_red (n : ℤ) (d : D) (c : UInt32) {l r : RbNode D}
    (hl : isRed l = false) (hr : isRed r = false) :
    rbRebalance n (.node d c l r) = some (.node d c l r) := by
  rw [rbRebalance, hl, hr]
  split_ifs <;> simp_all

/-- Among nodes of a color other than red a new one of that color stays where it is attached. -/
theorem rbNodeAttach_allColored (compare : D → D → ℤ) {color : UInt32} (hc : color ≠ red) (x : D)
    {t : RbNode D} (ht : AllColored color t) :
    ∃ t', rbNodeAttach compare x (.leaf color x) t = some t' ∧ t' ≠ .null ∧
      AllColored color t' := by
  induction t with
  | null => exact ⟨_, rfl, by simp [Node.leaf], rfl, trivial, trivial⟩
  | node d c l r ihl ihr =>
    obtain ⟨hd, hl, hr⟩ := ht
    rw [rbNodeAttach]
    split_ifs
    · obtain ⟨l', hl', -, hcolored⟩ := ihl hl
      refine ⟨.node d c l' r, ?_, by simp, hd, hcolored, hr⟩
      rw [hl', Option.bind_some,
        rbRebalance_of_not_red _ d c (hcolored.isRed hc) (hr.isRed hc)]
    · obtain ⟨r', hr', -, hcolored⟩ := ihr hr
      refine ⟨.node d c l r', ?_, by simp, hd, hl, hcolored⟩
      rw [hr', Option.bind_some,
        rbRebalance_of_not_red _ d c (hl.isRed hc) (hcolored.isRed hc)]
    · exact ⟨_, rfl, by simp, hd, hl, hr⟩

/-! ### The two directions -/

theorem rbAttachStep_none (t : TreeTag UInt32 D) (e : D) :
    rbAttachStep compare t (e, none) = some t := rfl

theorem rbAttachStep_first (d : D) (color : UInt32) :
    rbAttachStep compare treeCreate (d, some color) = some ⟨1, .leaf black d⟩ := rfl

/-- An equal datum is counted and its node is lost. -/
theorem rbAttachStep_equal {d e : D} (h : compare e d = 0) (n color : UInt32)
    (l r : RbNode D) :
    rbAttachStep compare ⟨n, .node d black l r⟩ (e, some color) =
      some ⟨n + 1, .node d black l r⟩ := by
  rw [rbAttachStep, rbtreeAttach, rbNodeAttach, if_neg (by simpa using h)]
  rfl

/-- The invariant of a run whose nodes all get one color: the root is black and the rest has
that color. -/
structure ColoredBelow (color : UInt32) (d : D) (grown : Bool) (t : TreeTag UInt32 D) : Prop where
  sides : ∃ l r, t.root = .node d black l r ∧ AllColored color l ∧ AllColored color r ∧
    (grown = true → l ≠ .null ∨ r ≠ .null)

theorem ColoredBelow.step (compare : D → D → ℤ) {color : UInt32} (hc : color ≠ red) {d : D}
    {grown : Bool} {t : TreeTag UInt32 D} (h : ColoredBelow color d grown t) (e : D) :
    ∃ t', rbAttachStep compare t (e, some color) = some t' ∧
      ColoredBelow color d (grown || compare e d ≠ 0) t' := by
  obtain ⟨n, root⟩ := t
  obtain ⟨l, r, rfl, hl, hr, hgrown⟩ := h
  by_cases h0 : compare e d = 0
  · refine ⟨_, rbAttachStep_equal h0 n color l r, l, r, rfl, hl, hr, ?_⟩
    simpa [h0] using hgrown
  · by_cases hlt : compare e d < 0
    · obtain ⟨l', hl', hne, hcolored⟩ := rbNodeAttach_allColored compare hc e hl
      refine ⟨⟨n + 1, .node d black l' r⟩, ?_, l', r, rfl, hcolored, hr, fun _ => .inl hne⟩
      simp [rbAttachStep, rbtreeAttach, rbNodeAttach, h0, hlt, hl', setColor,
        rbRebalance_of_not_red _ d black (hcolored.isRed hc) (hr.isRed hc)]
    · obtain ⟨r', hr', hne, hcolored⟩ := rbNodeAttach_allColored compare hc e hr
      refine ⟨⟨n + 1, .node d black l r'⟩, ?_, l, r', rfl, hl, hcolored, fun _ => .inr hne⟩
      simp [rbAttachStep, rbtreeAttach, rbNodeAttach, h0, hlt, hr', setColor,
        rbRebalance_of_not_red _ d black (hl.isRed hc) (hcolored.isRed hc)]

/-- The calls with one value in the color field of every node that `malloc` returns. -/
def fillWith (color : UInt32) (calls : List (D × Bool)) : List (D × Option UInt32) :=
  calls.map fun call => (call.1, if call.2 then some color else none)

theorem callsOf_fillWith (color : UInt32) (calls : List (D × Bool)) :
    callsOf (fillWith color calls) = calls := by
  rw [callsOf, fillWith, List.map_map]
  apply List.map_id''
  rintro ⟨d, ok⟩
  cases ok <;> rfl

theorem ColoredBelow.run (compare : D → D → ℤ) {color : UInt32} (hc : color ≠ red) {d : D}
    {grown : Bool} {t : TreeTag UInt32 D} (h : ColoredBelow color d grown t)
    (calls : List (D × Bool)) :
    ∃ t', runFrom (rbAttachStep compare) t (fillWith color calls) = some t' ∧
      ColoredBelow color d (grown || (offered calls).any fun e => compare e d ≠ 0) t' := by
  induction calls generalizing t grown with
  | nil => exact ⟨t, rfl, by simpa [offered] using h⟩
  | cons call calls ih =>
    obtain ⟨e, ok⟩ := call
    cases ok with
    | false =>
      obtain ⟨t', ht', hend⟩ := ih h
      exact ⟨t', ht', hend⟩
    | true =>
      obtain ⟨t₁, ht₁, hstep⟩ := h.step compare hc e
      obtain ⟨t', ht', hend⟩ := ih hstep
      refine ⟨t', ?_, ?_⟩
      · exact (runFrom_cons ht₁).trans ht'
      · rwa [Bool.or_assoc] at hend

/-- A run whose nodes all get one color leaves that color below the root. -/
theorem rbAttachAll_fillWith (compare : D → D → ℤ) {color : UInt32} (hc : color ≠ red)
    {calls : List (D × Bool)} {d : D} {ds : List D} (h : offered calls = d :: ds) :
    ∃ t, rbAttachAll compare (fillWith color calls) = some t ∧
      ColoredBelow color d (ds.any fun e => compare e d ≠ 0) t := by
  induction calls with
  | nil => cases h
  | cons call calls ih =>
    obtain ⟨e, ok⟩ := call
    cases ok with
    | false => exact ih h
    | true =>
      obtain ⟨rfl, rfl⟩ := List.cons.inj h
      have hfirst : ColoredBelow color e false ⟨1, .leaf black e⟩ :=
        ⟨.null, .null, rfl, trivial, trivial, by simp⟩
      obtain ⟨t, ht, hend⟩ := hfirst.run compare hc calls
      exact ⟨t, (runFrom_cons (rbAttachStep_first e color)).trans ht, hend⟩

theorem callsOf_eq_refused {calls : List (D × Option UInt32)} {e : D} {rest : List (D × Bool)}
    (h : callsOf calls = (e, false) :: rest) :
    ∃ calls', calls = (e, none) :: calls' ∧ callsOf calls' = rest := by
  obtain ⟨⟨d, malloc⟩, calls', rfl, hcall, hrest⟩ := List.map_eq_cons_iff.mp h
  obtain ⟨rfl, hmalloc⟩ := Prod.mk.inj hcall
  obtain rfl := Option.isSome_eq_false_iff.mp hmalloc |> Option.isNone_iff_eq_none.mp
  exact ⟨calls', rfl, hrest⟩

theorem callsOf_eq_served {calls : List (D × Option UInt32)} {e : D} {rest : List (D × Bool)}
    (h : callsOf calls = (e, true) :: rest) :
    ∃ color calls', calls = (e, some color) :: calls' ∧ callsOf calls' = rest := by
  obtain ⟨⟨d, malloc⟩, calls', rfl, hcall, hrest⟩ := List.map_eq_cons_iff.mp h
  obtain ⟨rfl, hmalloc⟩ := Prod.mk.inj hcall
  obtain ⟨color, rfl⟩ := Option.isSome_iff_exists.mp hmalloc
  exact ⟨color, calls', rfl, hrest⟩

/-- As long as all data are equal to that of the root, the memory of their nodes is not seen. -/
theorem runFrom_single {d : D} (n : UInt32) {calls : List (D × Bool)}
    (h : ∀ e ∈ offered calls, compare e d = 0) {calls₁ calls₂ : List (D × Option UInt32)}
    (h₁ : callsOf calls₁ = calls) (h₂ : callsOf calls₂ = calls) :
    runFrom (rbAttachStep compare) ⟨n, .leaf black d⟩ calls₁ =
      runFrom (rbAttachStep compare) ⟨n, .leaf black d⟩ calls₂ := by
  induction calls generalizing n calls₁ calls₂ with
  | nil => rw [List.map_eq_nil_iff.mp h₁, List.map_eq_nil_iff.mp h₂]
  | cons call calls ih =>
    obtain ⟨e, ok⟩ := call
    cases ok with
    | false =>
      obtain ⟨rest₁, rfl, hrest₁⟩ := callsOf_eq_refused h₁
      obtain ⟨rest₂, rfl, hrest₂⟩ := callsOf_eq_refused h₂
      rw [runFrom_cons (rbAttachStep_none _ _), runFrom_cons (rbAttachStep_none _ _)]
      exact ih n h hrest₁ hrest₂
    | true =>
      obtain ⟨color₁, rest₁, rfl, hrest₁⟩ := callsOf_eq_served h₁
      obtain ⟨color₂, rest₂, rfl, hrest₂⟩ := callsOf_eq_served h₂
      have hequal := h e List.mem_cons_self
      rw [Node.leaf, runFrom_cons (rbAttachStep_equal hequal n color₁ .null .null),
        runFrom_cons (rbAttachStep_equal hequal n color₂ .null .null)]
      exact ih (n + 1) (fun e he => h e (List.mem_cons_of_mem _ he)) hrest₁ hrest₂

theorem SingleNode.dataDetermines {calls : List (D × Bool)} (h : SingleNode compare calls) :
    DataDetermines compare calls := by
  intro calls₁ calls₂ h₁ h₂
  unfold rbAttachAll
  induction calls generalizing calls₁ calls₂ with
  | nil => rw [List.map_eq_nil_iff.mp h₁, List.map_eq_nil_iff.mp h₂]
  | cons call calls ih =>
    obtain ⟨e, ok⟩ := call
    cases ok with
    | false =>
      obtain ⟨rest₁, rfl, hrest₁⟩ := callsOf_eq_refused h₁
      obtain ⟨rest₂, rfl, hrest₂⟩ := callsOf_eq_refused h₂
      rw [runFrom_cons (rbAttachStep_none _ _), runFrom_cons (rbAttachStep_none _ _)]
      exact ih h rest₁ rest₂ hrest₁ hrest₂
    | true =>
      obtain ⟨color₁, rest₁, rfl, hrest₁⟩ := callsOf_eq_served h₁
      obtain ⟨color₂, rest₂, rfl, hrest₂⟩ := callsOf_eq_served h₂
      rw [runFrom_cons (rbAttachStep_first e color₁),
        runFrom_cons (rbAttachStep_first e color₂)]
      exact runFrom_single 1 (h e _ rfl) hrest₁ hrest₂

theorem AllColored.unique {color₁ color₂ : UInt32} {t : RbNode D} (h : t ≠ .null)
    (h₁ : AllColored color₁ t) (h₂ : AllColored color₂ t) : color₁ = color₂ := by
  cases t with
  | null => exact absurd rfl h
  | node d c l r => exact h₁.1.symm.trans h₂.1

/-- The tree that a sequence of calls makes is the same in any memory exactly if only one of the
nodes is kept. -/
theorem dataDetermines_iff (compare : D → D → ℤ) (calls : List (D × Bool)) :
    DataDetermines compare calls ↔ SingleNode compare calls := by
  refine ⟨fun hsame => ?_, SingleNode.dataDetermines⟩
  intro d ds hoffered
  by_contra! hgrown
  have hany : (ds.any fun e => compare e d ≠ 0) = true := by simpa using hgrown
  have hblack : black ≠ red := by decide
  have hother : (2 : UInt32) ≠ red := by decide
  obtain ⟨t, ht, l, r, hroot, hl, hr, hne⟩ :=
    rbAttachAll_fillWith compare hblack hoffered
  obtain ⟨t₂, ht₂, l₂, r₂, hroot₂, hl₂, hr₂, -⟩ :=
    rbAttachAll_fillWith compare hother hoffered
  have hruns := hsame _ _ (callsOf_fillWith black calls) (callsOf_fillWith 2 calls)
  rw [ht, ht₂] at hruns
  obtain rfl := Option.some.inj hruns
  rw [hroot] at hroot₂
  obtain ⟨-, -, rfl, rfl⟩ := Node.node.inj hroot₂
  have hcolors : black ≠ 2 := by decide
  obtain hlne | hrne := hne hany
  · exact hcolors (hl.unique hlne hl₂)
  · exact hcolors (hr.unique hrne hr₂)

/-- Keys 1 and 2: the second node is red where `malloc` returned zeros, and black where a 1 was
left at its place. -/
theorem not_dataDetermines :
    ¬ DataDetermines (fun a b : ℤ => a - b) [(1, true), (2, true)] := by
  intro h
  have hruns := h [(1, some red), (2, some red)] [(1, some red), (2, some black)] rfl rfl
  revert hruns
  decide

end MorningProjects.Tree
