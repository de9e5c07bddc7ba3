import MorningProjects.Library.Runs
import MorningProjects.Pool.Refinement

/-!
# Runs of the pool

Callers allocate sizes that a node can hold, free what they have, and write to their
own blocks. Then no node is lost, shared or handed out twice, and a bank asks for memory
only when all of its nodes are in use.
-/
namespace MorningProjects.Pool
open Library

structure PoolState where
  pool : MemPool
  live : List MemBlock

inductive PoolOp where
  | alloc (size : ℕ) (malloc : PoolMallocs)
  | free (block : MemBlock)
  | write (block : MemBlock) (offset : ℕ) (byte : UInt8)

def poolStep (w : ℕ) (s : PoolState) : PoolOp → Option PoolState
  | .alloc size malloc =>
    (memAlloc w s.pool size malloc).map fun (p, g) =>
      ⟨g, if p = 0 then s.live else ⟨p, size⟩ :: s.live⟩
  | .free block => (memFree w s.pool block.ptr).map fun g => ⟨g, s.live.erase block⟩
  | .write block offset byte =>
    some ⟨{ s.pool with mem := Function.update s.pool.mem (block.ptr + offset) byte }, s.live⟩

/-- The chunks of a bank, along the records from `p_mem_chunk_list` on. -/
def MemPool.HasChunks (g : MemPool) (b : ℕ) (chunks : List ℕ) : Prop :=
  ∃ records, (g.bank b).chunkList = records.head? ∧ NextChain g.chunk records none ∧
    records.map (fun r => readData g.chunk (some r)) = chunks.map some

def chunkNodes (b : ℕ) (chunks : List ℕ) : List ℕ :=
  chunks.flatMap fun c => (List.range numMemNodesPerBank).map fun i => c + i * b

/-- `malloc` answers with a record that is not in use and a chunk apart from all others. -/
def MemPool.FreshMalloc (w : ℕ) (g : MemPool) (b : ℕ) (malloc : PoolMallocs) : Prop :=
  (∃ r old, malloc.record = some (r, old) ∧ g.chunk r = none) ∧ malloc.chunk ≠ 0 ∧
    malloc.chunk + numMemNodesPerBank * b ≤ 256 ^ w ∧
    ∀ b' chunks, g.HasChunks b' chunks → ∀ c ∈ chunks,
      malloc.chunk + numMemNodesPerBank * b ≤ c ∨ c + numMemNodesPerBank * b' ≤ malloc.chunk

/-- Sizes fit a node that can hold a pointer, `malloc` succeeds where it is called, and
callers free and write only what they have. -/
def PoolState.Permits (w : ℕ) (s : PoolState) : PoolOp → Prop
  | .alloc size malloc =>
    w ≤ size + 1 ∧ size + 1 < maxMemAllocatableSize ∧
      ((s.pool.bank (size + 1)).available = 0 → s.pool.FreshMalloc w (size + 1) malloc)
  | .free block => block ∈ s.live
  | .write block offset _ => block ∈ s.live ∧ offset < block.size

/-- The free list of a bank ends and has no node twice, and the free nodes and those of the
live blocks are the nodes of the bank's chunks, each once. -/
def PoolState.BankConserved (w : ℕ) (s : PoolState) (b : ℕ) : Prop :=
  ∃ chunks free, s.pool.HasChunks b chunks ∧
    Chain (fun n => readWord s.pool.mem n w) 0 (s.pool.bank b).available free ∧ free.Nodup ∧
    (free ++ liveNodes s.live b).Perm (chunkNodes b chunks) ∧ (chunkNodes b chunks).Nodup

structure PoolState.Conserved (w : ℕ) (s : PoolState) : Prop where
  banks : ∀ b, s.BankConserved w b
  disjoint : s.live.Pairwise fun x y => x.ptr + x.size < y.ptr ∨ y.ptr + y.size < x.ptr
  /-- A block fills its node behind the header. -/
  usable : ∀ block ∈ s.live, ∃ chunks, s.pool.HasChunks block.bank chunks ∧
    ∃ c ∈ chunks, ∃ i < numMemNodesPerBank,
      block.ptr = c + i * block.bank + 1 ∧ block.ptr + block.size ≤ c + (i + 1) * block.bank

/-- A free node is handed out before a chunk is asked for, which happens only when every
node of the bank is in use; a block that is given back is the next to be handed out. -/
def PoolState.CallMeets (w : ℕ) (s : PoolState) : PoolOp → Prop
  | .alloc size malloc =>
    ∃ p g, memAlloc w s.pool size malloc = some (p, g) ∧ p ≠ 0 ∧
      ((s.pool.bank (size + 1)).available ≠ 0 →
        p = (s.pool.bank (size + 1)).available + 1 ∧ g.chunk = s.pool.chunk) ∧
      ((s.pool.bank (size + 1)).available = 0 → ∃ chunks, s.pool.HasChunks (size + 1) chunks ∧
        (liveNodes s.live (size + 1)).Perm (chunkNodes (size + 1) chunks))
  | .free block =>
    ∃ g, memFree w s.pool block.ptr = some g ∧ (g.bank block.bank).available = block.node
  | .write _ _ _ => True

def PoolState.Arranged (w : ℕ) (s : PoolState) : Prop :=
  ∃ a records, a.live = s.live ∧ a.Conserves w ∧ Represents w s.pool a records

section Run

variable {w : ℕ} {g : MemPool} {a : Arena} {records : ℕ → List ℕ}

theorem chunkNodes_eq (a : Arena) (b : ℕ) : chunkNodes b (a.chunks b) = a.nodes b := by
  rw [chunkNodes, Arena.nodes]
  congr 1
  funext c
  exact (nodesFrom_eq_map b c numMemNodesPerBank).symm

theorem Represents.hasChunks (h : Represents w g a records) (b : ℕ) :
    g.HasChunks b (a.chunks b) :=
  ⟨records b, h.chunkList b, (h.segment b).nextChain, h.chunks b⟩

theorem Represents.freshFor (h : Represents w g a records) {b : ℕ} {malloc : PoolMallocs}
    (hfresh : g.FreshMalloc w b malloc) : FreshFor w g a b malloc := by
  obtain ⟨hrecord, hchunk, hfits, hapart⟩ := hfresh
  refine ⟨hrecord, hchunk, hfits, ?_⟩
  intro b' c hc
  exact hapart b' (a.chunks b') (h.hasChunks b') c hc

theorem memAlloc_eq (hw : 4 ≤ w) {size : ℕ} (hsize : w ≤ size + 1)
    (hmax : size + 1 < maxMemAllocatableSize) {malloc : PoolMallocs} {g' : MemPool}
    (hready : (g.bank (size + 1)).available ≠ 0 ∧ g' = g ∨
      (g.bank (size + 1)).available = 0 ∧ memAddBank w g (size + 1) malloc = some (.ok, g')) :
    memAlloc w g size malloc = some (handOut w g' (size + 1) (size + 1)) := by
  have hheaded := headedSize_eq (by omega : 0 < w) hmax
  have hindex := bankIndex_eq (le_trans hw hsize)
  have hsmall : headedSize w size < maxMemAllocatableSize := by rwa [hheaded]
  rcases hready with ⟨hfree, rfl⟩ | ⟨hnone, hadd⟩
  · rw [memAlloc_free hsmall (by rwa [hheaded, hindex]), hheaded, hindex]
  · rw [memAlloc_grown hsmall (by rwa [hheaded, hindex]) (by rwa [hheaded, hindex]), hheaded,
      hindex]

/-- An allocation takes the first free node, of a bank that has grown if it had none. -/
theorem Represents.alloc (h : Represents w g a records) (hcons : a.Conserves w) (hw : 4 ≤ w)
    {size : ℕ} {malloc : PoolMallocs} (hsize : w ≤ size + 1)
    (hmax : size + 1 < maxMemAllocatableSize)
    (hfresh : (g.bank (size + 1)).available = 0 → g.FreshMalloc w (size + 1) malloc) :
    ∃ n g' a' records', memAlloc w g size malloc = some (n + 1, g') ∧ a'.Conserves w ∧
      Represents w g' a' records' ∧ a'.live = ⟨n + 1, size⟩ :: a.live ∧
      ((g.bank (size + 1)).available ≠ 0 →
        n = (g.bank (size + 1)).available ∧ g'.chunk = g.chunk) := by
  by_cases hnone : (g.bank (size + 1)).available = 0
  · have hmalloc := h.freshFor (hfresh hnone)
    have hfree : a.free (size + 1) = [] := by
      have hchain := h.free (size + 1)
      rw [hnone] at hchain
      exact hchain.eq_nil
    obtain ⟨g', r, hadd, hgrown⟩ := h.addBank hcons (by omega) hsize hmalloc
    have hgrow := hcons.grow (by omega) hfree hsize hmax hmalloc.chunk hmalloc.fits
      (apart_nodes hmalloc.apart)
    have hnodes : (a.grow (size + 1) malloc.chunk).free (size + 1) =
        malloc.chunk :: nodesFrom (size + 1) (malloc.chunk + (size + 1)) 9 :=
      Function.update_self ..
    obtain ⟨hptr, htake⟩ := hgrown.take hgrow hnodes
    refine ⟨malloc.chunk, _, _, _, ?_, hgrow.take hnodes, htake, rfl, ?_⟩
    · rw [memAlloc_eq hw hsize hmax (.inr ⟨hnone, hadd⟩), ← hptr]
    · intro hne
      exact (hne hnone).elim
  · obtain ⟨ns, hfree, -⟩ := (h.free (size + 1)).head hnone
    obtain ⟨-, htake⟩ := h.take hcons hfree
    refine ⟨_, _, _, _, memAlloc_eq hw hsize hmax (.inl ⟨hnone, rfl⟩), hcons.take hfree, htake,
      rfl, ?_⟩
    intro _
    exact ⟨rfl, rfl⟩

theorem PoolState.Arranged.step {s s' : PoolState} (h : s.Arranged w) (hw : 4 ≤ w) {op : PoolOp}
    (hpermit : s.Permits w op) (hs : poolStep w s op = some s') : s'.Arranged w := by
  obtain ⟨a, records, hlive, hcons, hrep⟩ := h
  cases op with
  | alloc size malloc =>
    obtain ⟨hsize, hmax, hfresh⟩ := hpermit
    obtain ⟨n, g', a', records', halloc, hcons', hrep', hlive', -⟩ :=
      hrep.alloc hcons hw hsize hmax hfresh
    rw [poolStep, halloc] at hs
    cases hs
    exact ⟨a', records', by rw [hlive', hlive]; rfl, hcons', hrep'⟩
  | free block =>
    have hblock : block ∈ a.live := hlive ▸ hpermit
    rw [poolStep, hrep.holdsNodes.free_eq hcons hblock] at hs
    cases hs
    exact ⟨a.give block, records, congrArg (List.erase · block) hlive, hcons.give hblock,
      hrep.give hcons hblock⟩
  | write block offset byte =>
    have hblock : block ∈ a.live := hlive ▸ hpermit.1
    cases hs
    exact ⟨a, records, hlive, hcons, hrep.write hcons hblock hpermit.2 byte⟩

theorem PoolState.Arranged.bankConserved {s : PoolState} (h : s.Arranged w) (b : ℕ) :
    s.BankConserved w b := by
  obtain ⟨a, records, hlive, hcons, hrep⟩ := h
  refine ⟨a.chunks b, a.free b, hrep.hasChunks b, hrep.free b, ?_, ?_, ?_⟩
  · exact (List.nodup_append.mp (hcons.nodup_append b)).1
  · rw [chunkNodes_eq, ← hlive]
    exact hcons.perm b
  · rw [chunkNodes_eq]
    exact hcons.nodup b

theorem PoolState.Arranged.usable {s : PoolState} (h : s.Arranged w) {block : MemBlock}
    (hblock : block ∈ s.live) :
    ∃ chunks, s.pool.HasChunks block.bank chunks ∧ ∃ c ∈ chunks, ∃ i < numMemNodesPerBank,
      block.ptr = c + i * block.bank + 1 ∧
        block.ptr + block.size ≤ c + (i + 1) * block.bank := by
  obtain ⟨a, records, hlive, hcons, hrep⟩ := h
  have hnode := hcons.live_mem (hlive ▸ hblock)
  have hpos := (hcons.range _ _ hnode).1
  obtain ⟨c, hc, hn⟩ := List.mem_flatMap.mp hnode
  obtain ⟨i, hi, heq⟩ := mem_nodesFrom.mp hn
  have hptr : block.ptr = c + i * block.bank + 1 := by
    rw [← heq]
    rw [MemBlock.node] at hpos ⊢
    omega
  refine ⟨a.chunks block.bank, hrep.hasChunks block.bank, c, hc, i, hi, hptr, ?_⟩
  rw [hptr, Nat.succ_mul]
  change _ ≤ c + (i * block.bank + (block.size + 1))
  omega

theorem PoolState.Arranged.conserved {s : PoolState} (h : s.Arranged w) : s.Conserved w := by
  constructor
  · exact h.bankConserved
  · obtain ⟨a, records, hlive, hcons, -⟩ := h
    exact hlive ▸ hcons.disjoint
  · intro block hblock
    exact h.usable hblock

theorem PoolState.Arranged.callMeets {s : PoolState} (h : s.Arranged w) (hw : 4 ≤ w) {op : PoolOp}
    (hpermit : s.Permits w op) : s.CallMeets w op := by
  cases op with
  | alloc size malloc =>
    have hbank := h.bankConserved (size + 1)
    obtain ⟨a, records, hlive, hcons, hrep⟩ := h
    obtain ⟨hsize, hmax, hfresh⟩ := hpermit
    obtain ⟨n, g', a', records', halloc, -, -, -, hfirst⟩ :=
      hrep.alloc hcons hw hsize hmax hfresh
    refine ⟨n + 1, g', halloc, Nat.succ_ne_zero n, ?_, ?_⟩
    · intro hne
      obtain ⟨hn, hchunk⟩ := hfirst hne
      exact ⟨by rw [hn], hchunk⟩
    · intro hnone
      obtain ⟨chunks, free, hchunks, hchain, -, hperm, -⟩ := hbank
      rw [hnone] at hchain
      rw [hchain.eq_nil] at hperm
      exact ⟨chunks, hchunks, hperm⟩
  | free block =>
    obtain ⟨a, records, hlive, hcons, hrep⟩ := h
    have hblock : block ∈ a.live := hlive ▸ hpermit
    refine ⟨_, hrep.holdsNodes.free_eq hcons hblock, ?_⟩
    rw [setBank_bank, if_pos rfl]
  | write block offset byte => trivial

end Run

/-- In every run after `mem_pool_init`, with pointers of four bytes or more, every call meets
its conditions and every state reached conserves the nodes of all banks. -/
theorem pool_run_conserved (w : ℕ) (hw : 4 ≤ w) (g : MemPool) (ops : List PoolOp)
    (hops : Along (poolStep w) (PoolState.Permits w) ⟨memPoolInit g, []⟩ ops) :
    Along (poolStep w) (PoolState.CallMeets w) ⟨memPoolInit g, []⟩ ops ∧
      ∀ s, runFrom (poolStep w) ⟨memPoolInit g, []⟩ ops = some s → s.Conserved w := by
  have hinit : PoolState.Arranged w ⟨memPoolInit g, []⟩ :=
    ⟨Arena.init, fun _ => [], rfl, conserves_init w, represents_init w g⟩
  have hstep : ∀ (s : PoolState) op s', s.Arranged w → s.Permits w op →
      poolStep w s op = some s' → s'.Arranged w :=
    fun s op s' h hpermit hs => h.step hw hpermit hs
  constructor
  · apply along_of_invariant hstep _ hinit hops
    intro s op h hpermit
    exact h.callMeets hw hpermit
  · intro s hs
    exact (runFrom_invariant hstep hinit hops hs).conserved

/-- A block is written to, given back and handed out again. -/
theorem pool_run_conserved_example :
    ∃ s, runFrom (poolStep 4)
        ⟨memPoolInit ⟨fun _ => 0, fun _ => none, fun _ => ⟨none, none, 0⟩⟩, []⟩
        [.alloc 5 ⟨some (0, ⟨none, none, 0⟩), 1000, 0⟩, .write ⟨1001, 5⟩ 4 255,
          .free ⟨1001, 5⟩, .alloc 5 ⟨none, 0, 0⟩] = some s ∧
      s.live = [⟨1001, 5⟩] ∧ s.Conserved 4 := by
  have hops : Along (poolStep 4) (PoolState.Permits 4)
      ⟨memPoolInit ⟨fun _ => 0, fun _ => none, fun _ => ⟨none, none, 0⟩⟩, []⟩
      [.alloc 5 ⟨some (0, ⟨none, none, 0⟩), 1000, 0⟩, .write ⟨1001, 5⟩ 4 255,
        .free ⟨1001, 5⟩, .alloc 5 ⟨none, 0, 0⟩] := by
    constructor
    · refine ⟨by decide, by decide, fun _ => ⟨⟨0, _, rfl, rfl⟩, by decide, by decide, ?_⟩⟩
      rintro b' chunks ⟨records, hhead, -, hchunks⟩ c hc
      have hrecords : records = [] := List.head?_eq_none_iff.mp hhead.symm
      rw [hrecords] at hchunks
      rw [List.map_eq_nil_iff.mp hchunks.symm] at hc
      cases hc
    rintro _ ⟨⟩
    constructor
    · exact ⟨List.mem_cons_self, by decide⟩
    rintro _ ⟨⟩
    constructor
    · exact List.mem_cons_self
    rintro _ ⟨⟩
    constructor
    · refine ⟨by decide, by decide, ?_⟩
      intro hnone
      have hnext : (1000 : ℕ) = 0 := hnone
      cases hnext
    · intro s _
      trivial
  exact ⟨_, rfl, rfl, (pool_run_conserved 4 le_rfl _ _ hops).2 _ rfl⟩

end MorningProjects.Pool
