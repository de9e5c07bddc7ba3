import MorningProjects.Pool.Memman

/-!
# Arenas

What the pool is for, without its memory: every bank has chunks of nodes, and every
node of a chunk is free or belongs to one live block. The three steps of the pool
(a bank grows, a node is taken, a node is given back) keep this.
-/
namespace MorningProjects.Pool
open Library

structure MemBlock where
  ptr : ℕ
  size : ℕ
  deriving DecidableEq, Repr

def MemBlock.bank (block : MemBlock) : ℕ := block.size + 1

/-- The node of a block begins one byte before it. -/
def MemBlock.node (block : MemBlock) : ℕ := block.ptr - 1

def liveNodes (live : List MemBlock) (b : ℕ) : List ℕ :=
  (live.filter fun block => block.bank = b).map MemBlock.node

/-- The chunks and the free nodes of every bank, and the live blocks. -/
structure Arena where
  chunks : ℕ → List ℕ
  free : ℕ → List ℕ
  live : List MemBlock

def Arena.nodes (a : Arena) (b : ℕ) : List ℕ :=
  (a.chunks b).flatMap fun c => nodesFrom b c numMemNodesPerBank

def Arena.init : Arena := ⟨fun _ => [], fun _ => [], []⟩

def Arena.grow (a : Arena) (b c : ℕ) : Arena :=
  { a with
    chunks := Function.update a.chunks b (a.chunks b ++ [c])
    free := Function.update a.free b (nodesFrom b c numMemNodesPerBank) }

def Arena.take (a : Arena) (size n : ℕ) (ns : List ℕ) : Arena :=
  { a with free := Function.update a.free (size + 1) ns, live := ⟨n + 1, size⟩ :: a.live }

def Arena.give (a : Arena) (block : MemBlock) : Arena :=
  { a with
    free := Function.update a.free block.bank (block.node :: a.free block.bank)
    live := a.live.erase block }

/-- Nodes are free or live, each once, and no two of them overlap. Addresses have `w` bytes. -/
structure Arena.Conserves (w : ℕ) (a : Arena) : Prop where
  perm : ∀ b, (a.free b ++ liveNodes a.live b).Perm (a.nodes b)
  nodup : ∀ b, (a.nodes b).Nodup
  range : ∀ b, ∀ n ∈ a.nodes b, 0 < n ∧ n + b ≤ 256 ^ w ∧ w ≤ b ∧ b < maxMemAllocatableSize
  apart : ∀ b b' n n', n ∈ a.nodes b → n' ∈ a.nodes b' →
    b = b' ∧ n = n' ∨ n + b ≤ n' ∨ n' + b' ≤ n

variable {w : ℕ} {a : Arena} {b c n : ℕ} {ns : List ℕ} {block : MemBlock}

theorem conserves_init (w : ℕ) : Arena.init.Conserves w := by
  constructor
  · intro b
    exact List.Perm.nil
  · intro b
    exact List.nodup_nil
  · intro b n hn
    cases hn
  · intro b b' n n' hn
    cases hn

theorem mem_liveNodes {live : List MemBlock} :
    n ∈ liveNodes live b ↔ ∃ block ∈ live, block.bank = b ∧ block.node = n := by
  simp [liveNodes, and_assoc]

theorem liveNodes_cons (block : MemBlock) (live : List MemBlock) (b : ℕ) :
    liveNodes (block :: live) b =
      if block.bank = b then block.node :: liveNodes live b else liveNodes live b := by
  rw [liveNodes, List.filter_cons]
  by_cases hb : block.bank = b
  · rw [if_pos (decide_eq_true hb), if_pos hb]
    rfl
  · rw [if_neg (by simpa using hb), if_neg hb]
    rfl

/-- Blocks with the nodes of every bank apart have no node in common. -/
theorem liveNodes_pairwise {live : List MemBlock} (h : ∀ b, (liveNodes live b).Nodup) :
    live.Pairwise fun x y => ¬ (x.bank = y.bank ∧ x.node = y.node) := by
  induction live with
  | nil => exact List.Pairwise.nil
  | cons x live ih =>
    have htail : ∀ b, (liveNodes live b).Nodup := by
      intro b
      have hb := h b
      rw [liveNodes_cons] at hb
      split_ifs at hb
      · exact (List.nodup_cons.mp hb).2
      · exact hb
    rw [List.pairwise_cons]
    refine ⟨?_, ih htail⟩
    rintro y hy ⟨hbank, hnode⟩
    have hx := h x.bank
    rw [liveNodes_cons, if_pos rfl, List.nodup_cons] at hx
    exact hx.1 (mem_liveNodes.mpr ⟨y, hy, hbank.symm, hnode.symm⟩)

theorem nodesFrom_inside (hn : n ∈ nodesFrom b c numMemNodesPerBank) :
    c ≤ n ∧ n + b ≤ c + numMemNodesPerBank * b := by
  obtain ⟨i, hi, rfl⟩ := mem_nodesFrom.mp hn
  have hmul : (i + 1) * b ≤ numMemNodesPerBank * b := Nat.mul_le_mul_right b hi
  rw [Nat.succ_mul] at hmul
  omega

theorem nodesFrom_apart {n' : ℕ} (hn : n ∈ nodesFrom b c numMemNodesPerBank)
    (hn' : n' ∈ nodesFrom b c numMemNodesPerBank) : n = n' ∨ n + b ≤ n' ∨ n' + b ≤ n := by
  obtain ⟨i, -, rfl⟩ := mem_nodesFrom.mp hn
  obtain ⟨j, -, rfl⟩ := mem_nodesFrom.mp hn'
  rcases lt_trichotomy i j with hij | rfl | hij
  · have hmul : (i + 1) * b ≤ j * b := Nat.mul_le_mul_right b hij
    rw [Nat.succ_mul] at hmul
    omega
  · exact .inl rfl
  · have hmul : (j + 1) * b ≤ i * b := Nat.mul_le_mul_right b hij
    rw [Nat.succ_mul] at hmul
    omega

section Members

variable (h : a.Conserves w)
include h

theorem Arena.Conserves.free_mem (hn : n ∈ a.free b) : n ∈ a.nodes b :=
  (h.perm b).subset (List.mem_append_left _ hn)

theorem Arena.Conserves.live_mem (hblock : block ∈ a.live) : block.node ∈ a.nodes block.bank :=
  (h.perm block.bank).subset
    (List.mem_append_right _ (mem_liveNodes.mpr ⟨block, hblock, rfl, rfl⟩))

theorem Arena.Conserves.nodup_append (b : ℕ) : (a.free b ++ liveNodes a.live b).Nodup :=
  (h.perm b).nodup_iff.mpr (h.nodup b)

theorem Arena.Conserves.free_ne_live (hn : n ∈ a.free b) (hblock : block ∈ a.live) :
    ¬ (b = block.bank ∧ n = block.node) := by
  rintro ⟨rfl, rfl⟩
  have hnodup := h.nodup_append block.bank
  rw [List.nodup_append] at hnodup
  exact hnodup.2.2 _ hn _ (mem_liveNodes.mpr ⟨block, hblock, rfl, rfl⟩) rfl

theorem Arena.Conserves.live_ne_erase {other : MemBlock} (hblock : block ∈ a.live)
    (hother : other ∈ a.live.erase block) :
    ¬ (block.bank = other.bank ∧ block.node = other.node) := by
  rintro ⟨hb, hn⟩
  have hnodup := (List.nodup_append.mp (h.nodup_append block.bank)).2.1
  have hperm : (liveNodes a.live block.bank).Perm
      (liveNodes (block :: a.live.erase block) block.bank) :=
    ((List.perm_cons_erase hblock).filter _).map _
  rw [hperm.nodup_iff, liveNodes_cons, if_pos rfl, List.nodup_cons] at hnodup
  exact hnodup.1 (mem_liveNodes.mpr ⟨other, hother, hb.symm, hn.symm⟩)

theorem Arena.Conserves.disjoint :
    a.live.Pairwise fun x y => x.ptr + x.size < y.ptr ∨ y.ptr + y.size < x.ptr := by
  have hnodes := liveNodes_pairwise fun b => (List.nodup_append.mp (h.nodup_append b)).2.1
  apply hnodes.imp_of_mem
  intro x y hx hy hne
  have hxpos := (h.range _ _ (h.live_mem hx)).1
  have hypos := (h.range _ _ (h.live_mem hy)).1
  have hside := (h.apart _ _ _ _ (h.live_mem hx) (h.live_mem hy)).resolve_left hne
  rw [MemBlock.node, MemBlock.node, MemBlock.bank, MemBlock.bank] at hside
  rw [MemBlock.node] at hxpos hypos
  omega

/-- What is written to one node does not reach another. -/
theorem Arena.Conserves.agreeOn {b' n' : ℕ} {mem mem' : Memory} (hn : n ∈ a.nodes b)
    (hn' : n' ∈ a.nodes b') (hne : ¬ (b = b' ∧ n = n')) (hoff : AgreeOff mem mem' n b) :
    AgreeOn mem mem' n' b' :=
  hoff.agreeOn ((h.apart b b' n n' hn hn').resolve_left hne)

end Members

theorem nodes_grow (a : Arena) (b c b' : ℕ) :
    (a.grow b c).nodes b' =
      if b' = b then a.nodes b ++ nodesFrom b c numMemNodesPerBank else a.nodes b' := by
  rw [Arena.nodes, Arena.grow]
  dsimp only
  rw [Function.update_apply]
  by_cases hb : b' = b
  · rw [if_pos hb, if_pos hb, List.flatMap_append, hb, List.flatMap_singleton]
    rfl
  · rw [if_neg hb, if_neg hb]
    rfl

theorem mem_nodes_grow {b' n' : ℕ} (hn' : n' ∈ (a.grow b c).nodes b') :
    n' ∈ a.nodes b' ∨ b' = b ∧ n' ∈ nodesFrom b c numMemNodesPerBank := by
  rw [nodes_grow] at hn'
  by_cases hbb : b' = b
  · rw [if_pos hbb] at hn'
    rcases List.mem_append.mp hn' with hn' | hn'
    · exact .inl (hbb ▸ hn')
    · exact .inr ⟨hbb, hn'⟩
  · rw [if_neg hbb] at hn'
    exact .inl hn'

theorem nodesFrom_beside {b' n' x : ℕ}
    (hside : c + numMemNodesPerBank * b ≤ n' ∨ n' + b' ≤ c)
    (hx : x ∈ nodesFrom b c numMemNodesPerBank) : x + b ≤ n' ∨ n' + b' ≤ x := by
  have hinside := nodesFrom_inside hx
  omega

/-- Growing keeps the nodes together when the new chunk lies apart from all others. -/
theorem Arena.Conserves.grow (h : a.Conserves w) (hw : 0 < w) (hfree : a.free b = [])
    (hwb : w ≤ b) (hb : b < maxMemAllocatableSize) (hc : c ≠ 0)
    (hfit : c + numMemNodesPerBank * b ≤ 256 ^ w)
    (hapart : ∀ b', ∀ n' ∈ a.nodes b', c + numMemNodesPerBank * b ≤ n' ∨ n' + b' ≤ c) :
    (a.grow b c).Conserves w := by
  have hold : ∀ b' n', n' ∈ a.nodes b' → ∀ x ∈ nodesFrom b c numMemNodesPerBank,
      x + b ≤ n' ∨ n' + b' ≤ x :=
    fun b' n' hn' x hx => nodesFrom_beside (hapart b' n' hn') hx
  constructor
  · intro b'
    rw [nodes_grow]
    change (Function.update a.free b _ b' ++ liveNodes a.live b').Perm _
    rw [Function.update_apply]
    by_cases hbb : b' = b
    · rw [if_pos hbb, if_pos hbb]
      have hperm := h.perm b'
      rw [hbb, hfree, List.nil_append] at hperm
      rw [hbb]
      exact List.perm_append_comm.trans (hperm.append_right _)
    · rw [if_neg hbb, if_neg hbb]
      exact h.perm b'
  · intro b'
    rw [nodes_grow]
    by_cases hbb : b' = b
    · rw [if_pos hbb, List.nodup_append]
      refine ⟨h.nodup b, nodesFrom_nodup (by omega) c _, ?_⟩
      rintro x hx y hy rfl
      have hside := hold b x hx x hy
      omega
    · rw [if_neg hbb]
      exact h.nodup b'
  · intro b' n' hn'
    rcases mem_nodes_grow hn' with hn' | ⟨rfl, hn'⟩
    · exact h.range b' n' hn'
    · have hinside := nodesFrom_inside hn'
      refine ⟨?_, ?_, hwb, hb⟩
      · omega
      · omega
  · intro b₁ b₂ n₁ n₂ hmem₁ hmem₂
    rcases mem_nodes_grow hmem₁ with hold₁ | ⟨hb₁, hnew₁⟩
    · rcases mem_nodes_grow hmem₂ with hold₂ | ⟨hb₂, hnew₂⟩
      · exact h.apart b₁ b₂ n₁ n₂ hold₁ hold₂
      · rw [hb₂]
        exact .inr (hold b₁ n₁ hold₁ n₂ hnew₂).symm
    · rw [hb₁]
      rcases mem_nodes_grow hmem₂ with hold₂ | ⟨hb₂, hnew₂⟩
      · exact .inr (hold b₂ n₂ hold₂ n₁ hnew₁)
      · rw [hb₂]
        rcases nodesFrom_apart hnew₁ hnew₂ with heq | hside
        · exact .inl ⟨rfl, heq⟩
        · exact .inr hside

theorem Arena.Conserves.take (h : a.Conserves w) {size : ℕ} (hfree : a.free (size + 1) = n :: ns) :
    (a.take size n ns).Conserves w := by
  refine ⟨?_, h.nodup, h.range, h.apart⟩
  intro b
  change (Function.update a.free (size + 1) ns b ++
    liveNodes (⟨n + 1, size⟩ :: a.live) b).Perm (a.nodes b)
  rw [Function.update_apply, liveNodes_cons]
  have hperm := h.perm b
  by_cases hb : b = size + 1
  · have hb' : MemBlock.bank ⟨n + 1, size⟩ = b := hb.symm
    rw [if_pos hb, if_pos hb']
    rw [hb, hfree] at hperm
    rw [hb]
    exact List.perm_middle.trans hperm
  · have hb' : ¬ MemBlock.bank ⟨n + 1, size⟩ = b := fun heq => hb heq.symm
    rw [if_neg hb, if_neg hb']
    exact hperm

theorem Arena.Conserves.give (h : a.Conserves w) (hblock : block ∈ a.live) :
    (a.give block).Conserves w := by
  refine ⟨?_, h.nodup, h.range, h.apart⟩
  intro b
  change (Function.update a.free block.bank (block.node :: a.free block.bank) b ++
    liveNodes (a.live.erase block) b).Perm (a.nodes b)
  have hlive : (liveNodes a.live b).Perm (liveNodes (block :: a.live.erase block) b) :=
    ((List.perm_cons_erase hblock).filter _).map _
  have hperm := (hlive.append_left (a.free b)).symm.trans (h.perm b)
  rw [liveNodes_cons] at hperm
  rw [Function.update_apply]
  by_cases hb : b = block.bank
  · rw [if_pos hb.symm] at hperm
    rw [if_pos hb, ← hb]
    exact List.perm_middle.symm.trans hperm
  · rw [if_neg fun heq => hb heq.symm] at hperm
    rw [if_neg hb]
    exact hperm

end MorningProjects.Pool
