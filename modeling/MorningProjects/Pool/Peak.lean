import MorningProjects.Pool.Run

/-!
# How far the pool grows

A bank asks for a chunk only when all of its nodes are in use, and nodes that come
back are handed out again. So the chunks of a bank are as many as the most nodes that
were ever in use at a time fill, however often blocks come and go.
-/
namespace MorningProjects.Pool
open Library

def PoolState.inUse (b : ℕ) (s : PoolState) : ℕ := (liveNodes s.live b).length

section Nodes

variable {w : ℕ} {g : MemPool} {a : Arena} {records : ℕ → List ℕ} {b : ℕ}

theorem length_nodesFrom (step node n : ℕ) : (nodesFrom step node n).length = n := by
  rw [nodesFrom_eq_map, List.length_map, List.length_range]

theorem Arena.length_nodes (a : Arena) (b : ℕ) :
    (a.nodes b).length = numMemNodesPerBank * (a.chunks b).length := by
  rw [Arena.nodes, List.length_flatMap]
  simp only [length_nodesFrom, List.map_const', List.sum_replicate]
  exact Nat.mul_comm ..

theorem Arena.Conserves.free_add_live (h : a.Conserves w) (b : ℕ) :
    (a.free b).length + (liveNodes a.live b).length =
      numMemNodesPerBank * (a.chunks b).length := by
  rw [← List.length_append, (h.perm b).length_eq, a.length_nodes b]

theorem MemPool.HasChunks.unique {chunks chunks' : List ℕ} (h : g.HasChunks b chunks)
    (h' : g.HasChunks b chunks') : chunks = chunks' := by
  obtain ⟨records, hhead, hchain, hdata⟩ := h
  obtain ⟨records', hhead', hchain', hdata'⟩ := h'
  rw [hchain.unique hchain' (hhead.symm.trans hhead'), hdata'] at hdata
  exact List.map_injective_iff.mpr (Option.some_injective ℕ) hdata.symm

theorem freshMalloc_start {malloc : PoolMallocs}
    (hrecord : ∃ r old, malloc.record = some (r, old) ∧ g.chunk r = none)
    (hchunk : malloc.chunk ≠ 0) (hfit : malloc.chunk + numMemNodesPerBank * b ≤ 256 ^ w) :
    (memPoolInit g).FreshMalloc w b malloc := by
  refine ⟨hrecord, hchunk, hfit, ?_⟩
  rintro b' chunks hchunks c hc
  rw [← ((represents_init w g).hasChunks b').unique hchunks] at hc
  cases hc

/-- An allocation leaves the chunks of all banks alone, or adds one to its own bank when no
node of that is free. -/
theorem Represents.alloc_chunks (h : Represents w g a records) (hcons : a.Conserves w)
    (hw : 4 ≤ w) {size : ℕ} {malloc : PoolMallocs} (hsize : w ≤ size + 1)
    (hmax : size + 1 < maxMemAllocatableSize)
    (hfresh : (g.bank (size + 1)).available = 0 → g.FreshMalloc w (size + 1) malloc) :
    ∃ n g' a' records', memAlloc w g size malloc = some (n + 1, g') ∧ a'.Conserves w ∧
      Represents w g' a' records' ∧ a'.live = ⟨n + 1, size⟩ :: a.live ∧
      (a'.chunks = a.chunks ∨ a.free (size + 1) = [] ∧
        a'.chunks = (a.grow (size + 1) malloc.chunk).chunks) := by
  by_cases hnone : (g.bank (size + 1)).available = 0
  · have hmalloc := h.freshFor (hfresh hnone)
    have hfree : a.free (size + 1) = [] := by
      have hchain := h.free (size + 1)
      rw [hnone] at hchain
      exact hchain.eq_nil
    obtain ⟨g', r, hadd, hgrown⟩ := h.addBank hcons (by omega) hsize hmalloc
    have hgrow := hcons.grow (by omega) hfree hsize hmax hmalloc.chunk hmalloc.fits
      (apart_nodes hmalloc.apart)
    have hnodes : (a.grow (size + 1) malloc.chunk).free (size + 1) =
        malloc.chunk :: nodesFrom (size + 1) (malloc.chunk + (size + 1)) 9 :=
      Function.update_self ..
    obtain ⟨hptr, htake⟩ := hgrown.take hgrow hnodes
    refine ⟨malloc.chunk, _, _, _, ?_, hgrow.take hnodes, htake, rfl, Or.inr ⟨hfree, rfl⟩⟩
    rw [memAlloc_eq hw hsize hmax (.inr ⟨hnone, hadd⟩), ← hptr]
  · obtain ⟨ns, hfree, -⟩ := (h.free (size + 1)).head hnone
    obtain ⟨-, htake⟩ := h.take hcons hfree
    exact ⟨_, _, _, _, memAlloc_eq hw hsize hmax (.inl ⟨hnone, rfl⟩), hcons.take hfree, htake,
      rfl, Or.inl rfl⟩

end Nodes

/-! ### The invariant -/

/-- The pool represents an arena whose bank has the chunks that so many nodes fill. -/
def PoolState.Fills (w b peak : ℕ) (s : PoolState) : Prop :=
  ∃ a records, a.live = s.live ∧ a.Conserves w ∧ Represents w s.pool a records ∧
    peak ≤ numMemNodesPerBank * (a.chunks b).length ∧
    numMemNodesPerBank * (a.chunks b).length < peak + numMemNodesPerBank

section Step

variable {w b peak : ℕ} {s s' : PoolState}

theorem PoolState.fills_start (w b : ℕ) (g : MemPool) :
    PoolState.Fills w b (PoolState.inUse b ⟨memPoolInit g, []⟩) ⟨memPoolInit g, []⟩ :=
  ⟨Arena.init, fun _ => [], rfl, conserves_init w, represents_init w g, le_rfl,
    Nat.lt_of_sub_eq_succ rfl⟩

theorem PoolState.Fills.stay {a : Arena} {records : ℕ → List ℕ} (hlive : a.live = s.live)
    (hcons : a.Conserves w) (hrep : Represents w s.pool a records)
    (hpeak : peak ≤ numMemNodesPerBank * (a.chunks b).length)
    (hfull : numMemNodesPerBank * (a.chunks b).length < peak + numMemNodesPerBank) :
    s.Fills w b (max peak (s.inUse b)) := by
  have hnodes := hcons.free_add_live b
  rw [hlive] at hnodes
  refine ⟨a, records, hlive, hcons, hrep, ?_, ?_⟩
  · apply max_le hpeak
    rw [PoolState.inUse]
    omega
  · have hle := le_max_left peak (s.inUse b)
    omega

/-- All nodes of the chunks are in use, and the first one of a new chunk is. -/
theorem PoolState.Fills.more {a : Arena} {records : ℕ → List ℕ} {k : ℕ}
    (hlive : a.live = s.live) (hcons : a.Conserves w) (hrep : Represents w s.pool a records)
    (hpeak : peak ≤ numMemNodesPerBank * k)
    (hnodes : (liveNodes a.live b).length = numMemNodesPerBank * k + 1)
    (hchunks : (a.chunks b).length = k + 1) : s.Fills w b (max peak (s.inUse b)) := by
  have hmost : max peak (s.inUse b) = numMemNodesPerBank * k + 1 := by
    rw [PoolState.inUse, ← hlive, hnodes]
    exact max_eq_right (by omega)
  have hsize : numMemNodesPerBank = 10 := rfl
  refine ⟨a, records, hlive, hcons, hrep, ?_, ?_⟩
  · rw [hmost, hchunks, hsize]
    omega
  · rw [hmost, hchunks, hsize]
    omega

theorem PoolState.Fills.step (hw : 4 ≤ w) (h : s.Fills w b peak) {op : PoolOp}
    (hpermit : s.Permits w op) (hs : poolStep w s op = some s') :
    s'.Fills w b (max peak (s'.inUse b)) := by
  obtain ⟨a, records, hlive, hcons, hrep, hpeak, hfull⟩ := h
  cases op with
  | alloc size malloc =>
    obtain ⟨hsize, hmax, hfresh⟩ := hpermit
    obtain ⟨n, g', a', records', halloc, hcons', hrep', hlive', hchunks⟩ :=
      hrep.alloc_chunks hcons hw hsize hmax hfresh
    rw [poolStep, halloc] at hs
    cases hs
    have hlive'' : a'.live = ⟨n + 1, size⟩ :: s.live := by rw [hlive', hlive]
    rcases hchunks with hsame | ⟨hfree, hgrown⟩
    · rw [← hsame] at hpeak hfull
      exact PoolState.Fills.stay hlive'' hcons' hrep' hpeak hfull
    · by_cases hb : b = size + 1
      · -- every node of the bank was in use, and one more is
        have hold := hcons.free_add_live b
        rw [hb, hfree, List.length_nil, Nat.zero_add, ← hb] at hold
        apply PoolState.Fills.more hlive'' hcons' hrep' hpeak
        · have hbank : MemBlock.bank ⟨n + 1, size⟩ = b := hb.symm
          rw [hlive', liveNodes_cons, if_pos hbank, List.length_cons, hold]
        · rw [hgrown, hb]
          simp [Arena.grow]
      · have hsame : a'.chunks b = a.chunks b := by
          rw [hgrown]
          exact Function.update_of_ne hb ..
        rw [← hsame] at hpeak hfull
        exact PoolState.Fills.stay hlive'' hcons' hrep' hpeak hfull
  | free block =>
    have hblock : block ∈ a.live := hlive ▸ hpermit
    rw [poolStep, hrep.holdsNodes.free_eq hcons hblock] at hs
    cases hs
    exact PoolState.Fills.stay (congrArg (List.erase · block) hlive) (hcons.give hblock)
      (hrep.give hcons hblock) hpeak hfull
  | write block offset byte =>
    have hblock : block ∈ a.live := hlive ▸ hpermit.1
    cases hs
    exact PoolState.Fills.stay hlive hcons (hrep.write hcons hblock hpermit.2 byte) hpeak hfull

theorem PoolState.Fills.length_eq (h : s.Fills w b peak) {chunks : List ℕ}
    (hchunks : s.pool.HasChunks b chunks) :
    chunks.length = (peak + 9) / numMemNodesPerBank := by
  obtain ⟨a, records, -, -, hrep, hpeak, hfull⟩ := h
  have hsize : numMemNodesPerBank = 10 := rfl
  rw [(hrep.hasChunks b).unique hchunks, hsize] at hpeak hfull
  rw [hsize]
  omega

end Step

/-- In every run after `mem_pool_init`, with pointers of four bytes or more, the chunks of a
bank are those that the most nodes ever in use at a time fill. -/
theorem pool_run_peak (w : ℕ) (hw : 4 ≤ w) (g : MemPool) (ops : List PoolOp) (s : PoolState)
    (hops : Along (poolStep w) (PoolState.Permits w) ⟨memPoolInit g, []⟩ ops)
    (hrun : runFrom (poolStep w) ⟨memPoolInit g, []⟩ ops = some s) (b : ℕ) :
    (∃ chunks, s.pool.HasChunks b chunks) ∧ ∀ chunks, s.pool.HasChunks b chunks →
      chunks.length = (peakAlong (poolStep w) (PoolState.inUse b) ⟨memPoolInit g, []⟩ ops + 9) /
        numMemNodesPerBank := by
  have hstep : ∀ peak (s : PoolState) op s', s.Fills w b peak → s.Permits w op →
      poolStep w s op = some s' → s'.Fills w b (max peak (s'.inUse b)) :=
    fun _ _ _ _ h hpermit hs => h.step hw hpermit hs
  have hfills := runFrom_peak hstep (PoolState.fills_start w b g) hops hrun
  constructor
  · obtain ⟨a, records, -, -, hrep, -⟩ := hfills
    exact ⟨a.chunks b, hrep.hasChunks b⟩
  · intro chunks hchunks
    exact hfills.length_eq hchunks

/-- A block is given back before the next one is asked for: one chunk is enough. -/
theorem pool_run_peak_example :
    ∃ s, runFrom (poolStep 4)
        ⟨memPoolInit ⟨fun _ => 0, fun _ => none, fun _ => ⟨none, none, 0⟩⟩, []⟩
        [.alloc 5 ⟨some (0, ⟨none, none, 0⟩), 1000, 0⟩, .free ⟨1001, 5⟩,
          .alloc 5 ⟨none, 0, 0⟩] = some s ∧
      ∀ chunks, s.pool.HasChunks 6 chunks → chunks.length = 1 := by
  have hops : Along (poolStep 4) (PoolState.Permits 4)
      ⟨memPoolInit ⟨fun _ => 0, fun _ => none, fun _ => ⟨none, none, 0⟩⟩, []⟩
      [.alloc 5 ⟨some (0, ⟨none, none, 0⟩), 1000, 0⟩, .free ⟨1001, 5⟩, .alloc 5 ⟨none, 0, 0⟩] := by
    constructor
    · exact ⟨by decide, by decide,
        fun _ => freshMalloc_start ⟨0, _, rfl, rfl⟩ (by decide) (by decide)⟩
    rintro _ ⟨⟩
    constructor
    · exact List.mem_cons_self
    rintro _ ⟨⟩
    constructor
    · refine ⟨by decide, by decide, ?_⟩
      intro hnone
      have hnext : (1000 : ℕ) = 0 := hnone
      cases hnext
    · intro s _
      trivial
  refine ⟨_, rfl, ?_⟩
  intro chunks hchunks
  exact (pool_run_peak 4 le_rfl _ _ _ hops rfl 6).2 chunks hchunks

end MorningProjects.Pool
