import MorningProjects.Pool.Peak
import MorningProjects.Pool.Served

/-!
# What is in a block

The pool writes its links and headers into the memory of its callers' blocks before they
get them and after they give them back. In between a byte of a block changes only when
its owner writes to it.
-/
namespace MorningProjects.Pool
open Library

/-- The byte that a call writes to a place in a block. -/
def writeTo (block : MemBlock) (offset : ℕ) : PoolOp → Option UInt8
  | .write block' offset' byte => if block' = block ∧ offset' = offset then some byte else none
  | .alloc _ _ | .free _ => none

/-- What is there after some calls: the byte written last, or the one from before. -/
def lastByte (block : MemBlock) (offset : ℕ) (byte : UInt8) (ops : List PoolOp) : UInt8 :=
  ops.foldl (fun byte op => (writeTo block offset op).getD byte) byte

section Step

variable {w : ℕ} {s s' : PoolState} {block other : MemBlock} {offset size : ℕ}
  {malloc : PoolMallocs}

theorem memAddBank_mem {g g' : MemPool} {b : ℕ}
    (h : memAddBank w g b malloc = some (.ok, g')) :
    g'.mem = memListFormat w g.mem malloc.chunk b := by
  rcases memAddBank_cases h with ⟨r, heap, list, -, -, -, -, -, rfl⟩ | ⟨r, heap, -, hfail, -⟩ |
    ⟨hfail, -⟩
  · rfl
  · cases hfail
  · cases hfail

theorem PoolState.Arranged.apart (h : s.Arranged w) (hblock : block ∈ s.live)
    (hother : other ∈ s.live) (hne : block ≠ other) :
    block.ptr + block.size < other.ptr ∨ other.ptr + other.size < block.ptr := by
  have hsymm : Std.Symm fun x y : MemBlock => x.ptr + x.size < y.ptr ∨ y.ptr + y.size < x.ptr :=
    ⟨fun _ _ h => h.symm⟩
  exact h.conserved.disjoint.forall hblock hother hne

/-- A node has room for a pointer and begins behind NULL. -/
theorem PoolState.Arranged.node_range (h : s.Arranged w) (hblock : block ∈ s.live) :
    w ≤ block.size + 1 ∧ block.ptr = block.node + 1 := by
  obtain ⟨a, records, hlive, hcons, -⟩ := h
  obtain ⟨hpos, -, hwide, -⟩ := hcons.range _ _ (hcons.live_mem (hlive ▸ hblock))
  refine ⟨hwide, ?_⟩
  rw [MemBlock.node] at hpos ⊢
  omega

theorem PoolState.Arranged.formatted (h : s.Arranged w) (hw : 0 < w) (hblock : block ∈ s.live)
    (hoffset : offset < block.size) {b : ℕ} (hwb : w ≤ b)
    (hfresh : s.pool.FreshMalloc w b malloc) :
    memListFormat w s.pool.mem malloc.chunk b (block.ptr + offset) =
      s.pool.mem (block.ptr + offset) := by
  obtain ⟨-, hchunk, hfit, hapart⟩ := hfresh
  obtain ⟨chunks, hchunks, c, hc, i, hi, hptr, hend⟩ := h.usable hblock
  have hinside : (i + 1) * block.bank ≤ numMemNodesPerBank * block.bank :=
    Nat.mul_le_mul_right _ hi
  apply (memListFormat_chain hw hwb s.pool.mem hchunk hfit).2
  have hside := hapart block.bank chunks hchunks c hc
  omega

theorem PoolState.Arranged.alloc_keeps (h : s.Arranged w) (hw : 4 ≤ w)
    (hpermit : s.Permits w (.alloc size malloc)) (hblock : block ∈ s.live)
    (hoffset : offset < block.size) (hs' : poolStep w s (.alloc size malloc) = some s') :
    s'.pool.mem (block.ptr + offset) = s.pool.mem (block.ptr + offset) ∧ block ∈ s'.live := by
  have hdisjoint := (h.step hw hpermit hs').conserved.disjoint
  obtain ⟨hsize, hmax, hfresh⟩ := hpermit
  have hready : ∃ g, memAlloc w s.pool size malloc = some (handOut w g (size + 1) (size + 1)) ∧
      g.mem (block.ptr + offset) = s.pool.mem (block.ptr + offset) := by
    by_cases hnone : (s.pool.bank (size + 1)).available = 0
    · obtain ⟨a, records, hlive, hcons, hrep⟩ := id h
      obtain ⟨g, r, hadd, -⟩ :=
        hrep.addBank hcons (by omega) hsize (hrep.freshFor (hfresh hnone))
      refine ⟨g, memAlloc_eq hw hsize hmax (Or.inr ⟨hnone, hadd⟩), ?_⟩
      rw [memAddBank_mem hadd]
      exact h.formatted (by omega) hblock hoffset hsize (hfresh hnone)
    · exact ⟨s.pool, memAlloc_eq hw hsize hmax (Or.inl ⟨hnone, rfl⟩), rfl⟩
  obtain ⟨g, halloc, hmem⟩ := hready
  rw [poolStep, halloc] at hs'
  cases hs'
  refine ⟨?_, List.mem_cons_of_mem _ hblock⟩
  have hside := (List.pairwise_cons.mp hdisjoint).1 block hblock
  change (g.bank (size + 1)).available + 1 + size < block.ptr ∨
    block.ptr + block.size < (g.bank (size + 1)).available + 1 at hside
  change Function.update g.mem (g.bank (size + 1)).available _ (block.ptr + offset) = _
  rw [Function.update_of_ne (by omega), hmem]

/-- A step other than the release of a block keeps the block, and changes a byte of it only to
what the owner writes there. -/
theorem PoolState.Arranged.keeps (h : s.Arranged w) (hw : 4 ≤ w) {op : PoolOp}
    (hpermit : s.Permits w op) (hblock : block ∈ s.live) (hoffset : offset < block.size)
    (hop : op ≠ .free block) (hs' : poolStep w s op = some s') :
    s'.pool.mem (block.ptr + offset) =
        (writeTo block offset op).getD (s.pool.mem (block.ptr + offset)) ∧ block ∈ s'.live := by
  cases op with
  | alloc size malloc => exact h.alloc_keeps hw hpermit hblock hoffset hs'
  | free other =>
    have hne : block ≠ other := fun heq => hop (heq ▸ rfl)
    have hother : other ∈ s.live := hpermit
    have hside := h.apart hblock hother hne
    obtain ⟨hwide, hptr⟩ := h.node_range hother
    obtain ⟨a, records, hlive, hcons, hrep⟩ := h
    rw [poolStep, hrep.holdsNodes.free_eq hcons (hlive ▸ hother)] at hs'
    cases hs'
    refine ⟨?_, (List.mem_erase_of_ne hne).mpr hblock⟩
    apply agreeOff_writeWord
    omega
  | write other offset' byte =>
    obtain ⟨hother, hoffset'⟩ := hpermit
    cases hs'
    refine ⟨?_, hblock⟩
    change Function.update s.pool.mem (other.ptr + offset') byte (block.ptr + offset) = _
    rw [writeTo]
    by_cases heq : other = block
    · subst heq
      by_cases hsame : offset' = offset
      · subst hsame
        rw [Function.update_self, if_pos ⟨rfl, rfl⟩, Option.getD_some]
      · rw [Function.update_of_ne (by omega), if_neg fun h => hsame h.2, Option.getD_none]
    · have hside := h.apart hblock hother (Ne.symm heq)
      rw [Function.update_of_ne (by omega), if_neg fun h => heq h.1, Option.getD_none]

end Step

/-- In every run, from every state that a run after `mem_pool_init` has reached: what is in a
block that is not given back is what its owner wrote there last. -/
theorem pool_run_keeps_bytes (w : ℕ) (hw : 4 ≤ w) (g : MemPool) (before ops : List PoolOp)
    (s s' : PoolState)
    (hbefore : Along (poolStep w) (PoolState.Permits w) ⟨memPoolInit g, []⟩ before)
    (hs : runFrom (poolStep w) ⟨memPoolInit g, []⟩ before = some s)
    (hops : Along (poolStep w) (PoolState.Permits w) s ops)
    (hs' : runFrom (poolStep w) s ops = some s') (block : MemBlock) (hblock : block ∈ s.live)
    (hkept : ∀ op ∈ ops, op ≠ .free block) (offset : ℕ) (hoffset : offset < block.size) :
    block ∈ s'.live ∧ s'.pool.mem (block.ptr + offset) =
      lastByte block offset (s.pool.mem (block.ptr + offset)) ops := by
  have hinit : PoolState.Arranged w ⟨memPoolInit g, []⟩ :=
    ⟨Arena.init, fun _ => [], rfl, conserves_init w, represents_init w g⟩
  have hstart : s.Arranged w := by
    apply runFrom_invariant _ hinit hbefore hs
    intro s op s' h hpermit hs'
    exact h.step hw hpermit hs'
  clear hs hbefore hinit
  induction ops generalizing s with
  | nil =>
    cases hs'
    exact ⟨hblock, rfl⟩
  | cons op ops ih =>
    obtain ⟨t, ht, hrun⟩ := Option.bind_eq_some_iff.mp hs'
    have hop := hkept op List.mem_cons_self
    obtain ⟨hbyte, hlive⟩ := hstart.keeps hw hops.1 hblock hoffset hop ht
    have hrest := ih t (hops.2 t ht) hrun hlive
      (fun op hop => hkept op (List.mem_cons_of_mem _ hop)) (hstart.step hw hops.1 ht)
    rwa [hbyte] at hrest

/-- Two bytes of a block. -/
theorem pool_run_keeps_bytes_example :
    ∃ s s', runFrom (poolStep 4)
        ⟨memPoolInit ⟨fun _ => 0, fun _ => none, fun _ => ⟨none, none, 0⟩⟩, []⟩
        [.alloc 5 ⟨some (0, ⟨none, none, 0⟩), 1000, 0⟩] = some s ∧
      runFrom (poolStep 4) s [.write ⟨1001, 5⟩ 4 255, .write ⟨1001, 5⟩ 0 7] = some s' ∧
      s'.pool.mem 1005 = 255 := by
  have hbefore : Along (poolStep 4) (PoolState.Permits 4)
      ⟨memPoolInit ⟨fun _ => 0, fun _ => none, fun _ => ⟨none, none, 0⟩⟩, []⟩
      [.alloc 5 ⟨some (0, ⟨none, none, 0⟩), 1000, 0⟩] := by
    constructor
    · exact ⟨by decide, by decide,
        fun _ => freshMalloc_start ⟨0, _, rfl, rfl⟩ (by decide) (by decide)⟩
    · intro s _
      trivial
  refine ⟨_, _, rfl, rfl, ?_⟩
  refine (pool_run_keeps_bytes 4 le_rfl _ _ [.write ⟨1001, 5⟩ 4 255, .write ⟨1001, 5⟩ 0 7] _ _
    hbefore rfl ?_ rfl ⟨1001, 5⟩ List.mem_cons_self ?_ 4 (by decide)).2
  · constructor
    · exact ⟨List.mem_cons_self, by decide⟩
    rintro _ ⟨⟩
    constructor
    · exact ⟨List.mem_cons_self, by decide⟩
    · intro s _
      trivial
  · intro op hop
    rcases List.mem_cons.mp hop with rfl | hop
    · exact PoolOp.noConfusion
    · rw [List.mem_singleton.mp hop]
      exact PoolOp.noConfusion

end MorningProjects.Pool
