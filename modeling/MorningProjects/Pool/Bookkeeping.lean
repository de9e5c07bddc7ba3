import MorningProjects.Pool.Destroy
import MorningProjects.Pool.Run

/-!
# The bookkeeping of the pool

A run with the log of its heap. As long as the nodes have room for their links and
`malloc` has memory where the pool counts on it, every bank's records are linked, written
in full and exactly those there are; then a call that gets no memory changes nothing and
the pool can be destroyed at any time.
-/
namespace MorningProjects.Pool
open Library

structure PoolTrace where
  state : PoolState
  log : PoolLog

def opLog (w : ℕ) (s : PoolState) : PoolOp → PoolLog
  | .alloc size malloc => memAllocLog w s.pool size malloc
  | .free _ => []
  | .write _ _ _ => []

def tracedStep (w : ℕ) (t : PoolTrace) (op : PoolOp) : Option PoolTrace :=
  (poolStep w t.state op).map fun s => ⟨s, t.log ++ opLog w t.state op⟩

def PoolTrace.start (mem : Memory) : PoolTrace :=
  ⟨⟨memPoolInit ⟨mem, fun _ => none, fun _ => ⟨none, none, 0⟩⟩, []⟩, []⟩

def PoolTrace.Fresh (w : ℕ) (t : PoolTrace) (op : PoolOp) : Prop :=
  MallocFresh (256 ^ w) (t.log ++ opLog w t.state op)

def Refused (log : PoolLog) : Prop := ∃ bytes, .malloc none bytes ∈ log

/-- With memory there is a block; without, NULL is returned, the pool is as it was and what the
call got is given back. -/
def FailsCleanly (w : ℕ) (g : MemPool) (size : ℕ) (malloc : PoolMallocs) : Prop :=
  ∃ p g', memAlloc w g size malloc = some (p, g') ∧
    (¬ Refused (memAllocLog w g size malloc) → p ≠ 0) ∧
    (Refused (memAllocLog w g size malloc) →
      p = 0 ∧ g' = g ∧ FreedOnce (memAllocLog w g size malloc))

/-- Callers give back blocks that they have, and write inside of them. -/
def PoolTrace.Uses (t : PoolTrace) : PoolOp → Prop
  | .alloc _ _ => True
  | .free block => block ∈ t.state.live
  | .write block offset _ => block ∈ t.state.live ∧ offset < block.size

/-- The nodes of the bank have room for a link, and what is given back is a node. In shorter nodes
the links overlap, and the first free node is no node of the bank any more. -/
def PoolOp.Linkable (w : ℕ) : PoolOp → Prop
  | .alloc size _ =>
    headedSize w size < maxMemAllocatableSize → w ≤ bankIndex (headedSize w size)
  | .free block => headedSize w block.size < maxMemAllocatableSize
  | .write _ _ _ => True

instance decidableLinkable (w : ℕ) : (op : PoolOp) → Decidable (op.Linkable w)
  | .alloc size _ =>
    inferInstanceAs (Decidable (headedSize w size < _ → w ≤ bankIndex (headedSize w size)))
  | .free block => inferInstanceAs (Decidable (headedSize w block.size < _))
  | .write _ _ _ => isTrue trivial

/-- `malloc` may fail for a large block and for the first record of a bank; where it has a first
record it has a chunk too, and a bank that grows gets both. One size is for no bank. -/
def PoolTrace.FindsMemory (w : ℕ) (t : PoolTrace) : PoolOp → Prop
  | .alloc size malloc =>
    headedSize w size ≠ maxMemAllocatableSize ∧
      (headedSize w size < maxMemAllocatableSize →
        (t.state.pool.bank (bankIndex (headedSize w size))).available = 0 →
          ((t.state.pool.bank (bankIndex (headedSize w size))).chunkList = none →
            malloc.record = none ∨ malloc.chunk ≠ 0) ∧
          ((t.state.pool.bank (bankIndex (headedSize w size))).chunkList ≠ none →
            malloc.record ≠ none ∧ malloc.chunk ≠ 0))
  | _ => True

/-- The records are linked, they are all there are, and their fields were written. -/
structure Bookkept (g : MemPool) (records : ℕ → List ℕ) (log : PoolLog) : Prop where
  keeps : KeepsRecords g records
  beyond : ∀ b, maxMemAllocatableSize ≤ b → records b = []
  live : ∀ r, (g.chunk r).isSome → ∃ b, r ∈ records b
  known : ∀ b, ∀ r ∈ records b, ∃ bytes, (r, bytes) ∈ blocks log
  written : ∀ b, ∀ r ∈ records b, ∀ f, .write r f ∈ log

section Bookkept

variable {w : ℕ} {g g' : MemPool} {records : ℕ → List ℕ} {log log' : PoolLog} {malloc : PoolMallocs}
  {b r : ℕ} {old : LinkNode ℕ ℕ}

theorem bookkept_start (mem : Memory) :
    Bookkept (PoolTrace.start mem).state.pool (fun _ => []) (PoolTrace.start mem).log := by
  refine ⟨keepsRecords_init rfl, fun _ _ => rfl, ?_, ?_, ?_⟩
  · intro r hr
    cases hr
  · intro b r hr
    cases hr
  · intro b r hr
    cases hr

theorem Bookkept.longer (h : Bookkept g records log) (log' : PoolLog) :
    Bookkept g records (log ++ log') := by
  refine ⟨h.keeps, h.beyond, h.live, ?_, ?_⟩
  · intro b r hr
    obtain ⟨bytes, hblock⟩ := h.known b r hr
    exact ⟨bytes, by rw [blocks_append]; exact List.mem_append_left _ hblock⟩
  · intro b r hr f
    exact List.mem_append_left _ (h.written b r hr f)

theorem Bookkept.setMem (h : Bookkept g records log) (mem : Memory) :
    Bookkept { g with mem := mem } records log :=
  ⟨h.keeps.congr rfl (fun _ => rfl) fun _ => rfl, h.beyond, h.live, h.known, h.written⟩

theorem Bookkept.setAvailable (h : Bookkept g records log) (mem : Memory) (index node : ℕ) :
    Bookkept ({ g with mem := mem }.setBank index { g.bank index with available := node })
      records log :=
  ⟨h.keeps.setAvailable mem index node, h.beyond, h.live, h.known, h.written⟩

theorem Bookkept.fresh (h : Bookkept g records log) {limit bytes : ℕ}
    (hfresh : MallocFresh limit (log ++ log')) (hblock : .malloc (some r) bytes ∈ log') :
    g.chunk r = none := by
  by_contra hne
  obtain ⟨b, hr⟩ := h.live r (Option.isSome_iff_ne_none.mpr hne)
  obtain ⟨bytes', hknown⟩ := h.known b r hr
  exact (hfresh.apart_of_mem hknown (mem_blocks.mpr hblock)).1 rfl

theorem Bookkept.grown (h : Bookkept g records log) (hb : b < maxMemAllocatableSize)
    (hr : g.chunk r = none) {chunk : LinkHeap ℕ ℕ} {c : ℕ}
    (hadded : RecordAdded g.chunk chunk (records b) r c) (mem : Memory) {bytes : ℕ}
    (hblock : .malloc (some r) bytes ∈ log') (hwritten : ∀ f, .write r f ∈ log')
    (available : ℕ) :
    Bookkept
      ({ g with chunk := chunk, mem := mem }.setBank b
        ⟨some r, (records b ++ [r]).head?, available⟩)
      (Function.update records b (records b ++ [r])) (log ++ log') := by
  refine ⟨h.keeps.grown hr hadded, ?_, ?_, ?_, ?_⟩
  · intro b' hb'
    rw [Function.update_of_ne (by omega)]
    exact h.beyond b' hb'
  · intro x hx
    by_cases hxr : x = r
    · exact ⟨b, mem_update_concat.mpr (.inr ⟨rfl, hxr⟩)⟩
    by_cases hmem : x ∈ records b
    · exact ⟨b, mem_update_concat.mpr (.inl hmem)⟩
    · change (chunk x).isSome at hx
      rw [hadded.other x hxr hmem] at hx
      obtain ⟨b', hb'⟩ := h.live x hx
      exact ⟨b', mem_update_concat.mpr (.inl hb')⟩
  · intro b' x hx
    rw [blocks_append]
    rcases mem_update_concat.mp hx with hx | ⟨-, rfl⟩
    · obtain ⟨bytes', hknown⟩ := h.known b' x hx
      exact ⟨bytes', List.mem_append_left _ hknown⟩
    · exact ⟨bytes, List.mem_append_right _ (mem_blocks.mpr hblock)⟩
  · intro b' x hx f
    rcases mem_update_concat.mp hx with hx | ⟨-, rfl⟩
    · exact List.mem_append_left _ (h.written b' x hx f)
    · exact List.mem_append_right _ (hwritten f)

/-- On either path a record is asked for and all of its fields are written. -/
theorem memAddBankLog_record (w : ℕ) (g : MemPool) (b : ℕ)
    (hrecord : malloc.record = some (r, old)) (hchunk : malloc.chunk ≠ 0) :
    (∃ bytes, .malloc (some r) bytes ∈ memAddBankLog w g b malloc) ∧
      ∀ f, .write r f ∈ memAddBankLog w g b malloc := by
  cases hlist : (g.bank b).chunkList with
  | none =>
    rw [memAddBankLog, hlist]
    dsimp only
    rw [memBankInitLog, hrecord]
    dsimp only
    rw [if_neg hchunk]
    refine ⟨⟨sizeofMemChunk w, by simp⟩, ?_⟩
    intro f
    cases f <;> simp
  | some first =>
    rw [memAddBankLog, hlist, hrecord]
    refine ⟨⟨w, by simp⟩, ?_⟩
    intro f
    cases f <;> simp

theorem Bookkept.addBank (h : Bookkept g records log) {limit : ℕ}
    (hb : b < maxMemAllocatableSize) (hrecord : malloc.record = some (r, old))
    (hchunk : malloc.chunk ≠ 0) (hfresh : MallocFresh limit (log ++ memAddBankLog w g b malloc)) :
    ∃ chunk, RecordAdded g.chunk chunk (records b) r malloc.chunk ∧
      memAddBank w g b malloc = some (.ok,
        { g with chunk := chunk, mem := memListFormat w g.mem malloc.chunk b }.setBank b
          ⟨some r, (records b ++ [r]).head?, malloc.chunk⟩) ∧
      Bookkept
        ({ g with chunk := chunk, mem := memListFormat w g.mem malloc.chunk b }.setBank b
          ⟨some r, (records b ++ [r]).head?, malloc.chunk⟩)
        (Function.update records b (records b ++ [r])) (log ++ memAddBankLog w g b malloc) := by
  obtain ⟨⟨bytes, hblock⟩, hwritten⟩ := memAddBankLog_record w g b hrecord hchunk
  have hr := h.fresh hfresh hblock
  obtain ⟨chunk, hadded, hadd⟩ := h.keeps.addBank w b hrecord hr hchunk
  exact ⟨chunk, hadded, hadd, h.grown hb hr hadded _ hblock hwritten _⟩

theorem Bookkept.handOut (h : Bookkept g records log) (w index size : ℕ) :
    Bookkept (handOut w g index size).2 records log :=
  h.setAvailable ..

theorem Bookkept.free (h : Bookkept g records log) {membit : ℕ}
    (hfree : memFree w g membit = some g') : Bookkept g' records log := by
  obtain ⟨-, -, rfl⟩ := memFree_cases hfree
  exact h.setAvailable ..

theorem mem_destroyLog_read {heap : LinkHeap ℕ ℕ} {a : ℕ} {f : RecordField}
    (hmem : .read a f ∈ destroyLog heap records) :
    ∃ b, a ∈ records b := by
  obtain ⟨b, -, hb⟩ := List.mem_flatMap.mp hmem
  obtain ⟨r, hr, hread⟩ := List.mem_flatMap.mp hb
  refine ⟨b, ?_⟩
  simp only [recordLog, List.mem_append, List.mem_cons, HeapEvent.read.injEq, List.not_mem_nil,
    or_false, List.mem_map, reduceCtorEq, and_false, exists_false] at hread
  rcases hread with ⟨rfl, -⟩ | ⟨rfl, -⟩
  · exact List.mem_reverse.mp hr
  · exact List.mem_reverse.mp hr

theorem Bookkept.destroy (h : Bookkept g records log) :
    ∃ fuel g', memPoolDestroy fuel g = some (.ok, g', destroyLog g.chunk records) ∧
      ∀ b, g'.bank b =
        if b < maxMemAllocatableSize then resetBank (records b) (g.bank b) else g.bank b := by
  let fuel := (Finset.range maxMemAllocatableSize).sup fun i => (records i).length
  refine ⟨fuel, h.keeps.memPoolDestroy_eq ?_⟩
  intro i hi
  exact Finset.le_sup (f := fun i => (records i).length) (Finset.mem_range.mpr hi)

theorem memAllocLog_large {size : ℕ} (h : maxMemAllocatableSize < headedSize w size) :
    memAllocLog w g size malloc = [.malloc (answerOf malloc.large) (headedSize w size)] := if_pos h

theorem memAllocLog_small {size : ℕ} (h : headedSize w size < maxMemAllocatableSize) :
    memAllocLog w g size malloc =
      if (g.bank (bankIndex (headedSize w size))).available = 0 then
        memAddBankLog w g (bankIndex (headedSize w size)) malloc else [] := by
  have hlarge : ¬ maxMemAllocatableSize < (size + 1) % 256 ^ w := by
    change ¬ maxMemAllocatableSize < headedSize w size
    omega
  have hindex : ¬ maxMemAllocatableSize ≤ bankIndex (headedSize w size) := by
    rw [not_le, bankIndex_lt]
    exact h
  exact (if_neg hlarge).trans (if_neg hindex)

theorem not_refused_memAddBankLog (hrecord : malloc.record = some (r, old))
    (hchunk : malloc.chunk ≠ 0) : ¬ Refused (memAddBankLog w g b malloc) := by
  rintro ⟨bytes, hmem⟩
  cases hlist : (g.bank b).chunkList with
  | none =>
    rw [memAddBankLog, hlist] at hmem
    simp [memBankInitLog, hrecord, answerOf_eq hchunk, hchunk] at hmem
  | some first =>
    rw [memAddBankLog, hlist] at hmem
    simp [hrecord, answerOf_eq hchunk] at hmem

theorem memAddBank_refused (hlist : (g.bank b).chunkList = none) (hrecord : malloc.record = none) :
    memAddBank w g b malloc = some (.fail, g) ∧
      memAddBankLog w g b malloc = [.malloc none (sizeofMemChunk w)] := by
  constructor
  · rw [memAddBank, hlist]
    dsimp only
    rw [memBankInit, hrecord]
  · rw [memAddBankLog, hlist]
    dsimp only
    rw [memBankInitLog, hrecord]

theorem Bookkept.allocLarge (h : Bookkept g records log) {size : ℕ}
    (hlarge : maxMemAllocatableSize < headedSize w size) :
    FailsCleanly w g size malloc ∧ ∀ p g', memAlloc w g size malloc = some (p, g') →
      ∃ records', Bookkept g' records' (log ++ memAllocLog w g size malloc) := by
  rw [FailsCleanly, memAllocLog_large hlarge, memAlloc_large hlarge]
  constructor
  · refine ⟨malloc.large, g, rfl, ?_, ?_⟩
    · intro hhad hzero
      rw [hzero] at hhad
      exact hhad ⟨_, List.mem_singleton_self _⟩
    · rintro ⟨bytes, hmem⟩
      have hzero : malloc.large = 0 := by
        by_contra hne
        simp [answerOf_eq hne] at hmem
      rw [hzero]
      exact ⟨rfl, rfl, List.Perm.nil⟩
  · rintro p g' ⟨⟩
    exact ⟨records, h.longer _⟩

theorem Bookkept.allocFree (h : Bookkept g records log) {size : ℕ}
    (hsmall : headedSize w size < maxMemAllocatableSize)
    (havailable : (g.bank (bankIndex (headedSize w size))).available ≠ 0) :
    FailsCleanly w g size malloc ∧ ∀ p g', memAlloc w g size malloc = some (p, g') →
      ∃ records', Bookkept g' records' (log ++ memAllocLog w g size malloc) := by
  rw [FailsCleanly, memAllocLog_small hsmall, if_neg havailable, memAlloc_free hsmall havailable]
  constructor
  · refine ⟨_, _, rfl, fun _ => Nat.succ_ne_zero _, ?_⟩
    rintro ⟨bytes, hmem⟩
    cases hmem
  · intro p g' heq
    obtain ⟨-, rfl⟩ := Prod.mk.inj (Option.some.inj heq)
    exact ⟨records, (h.handOut ..).longer []⟩

/-- A bank without a free node grows, or `malloc` refuses its first record. -/
theorem Bookkept.allocGrown (h : Bookkept g records log) {limit size : ℕ}
    (hfresh : MallocFresh limit (log ++ memAllocLog w g size malloc))
    (hsmall : headedSize w size < maxMemAllocatableSize)
    (havailable : (g.bank (bankIndex (headedSize w size))).available = 0)
    (hfirst : (g.bank (bankIndex (headedSize w size))).chunkList = none →
      malloc.record = none ∨ malloc.chunk ≠ 0)
    (hnext : (g.bank (bankIndex (headedSize w size))).chunkList ≠ none →
      malloc.record ≠ none ∧ malloc.chunk ≠ 0) :
    FailsCleanly w g size malloc ∧ ∀ p g', memAlloc w g size malloc = some (p, g') →
      ∃ records', Bookkept g' records' (log ++ memAllocLog w g size malloc) := by
  rw [FailsCleanly]
  rw [memAllocLog_small hsmall, if_pos havailable] at hfresh ⊢
  cases hrecord : malloc.record with
  | none =>
    have hlist : (g.bank (bankIndex (headedSize w size))).chunkList = none := by
      by_contra hne
      exact (hnext hne).1 hrecord
    obtain ⟨hadd, hlog⟩ := memAddBank_refused (w := w) hlist hrecord
    have hstatus : SystemStatus.fail ≠ .ok := by decide
    have halloc := memAlloc_refused hsmall havailable hstatus hadd
    rw [hlog, halloc]
    constructor
    · refine ⟨0, g, rfl, ?_, fun _ => ⟨rfl, rfl, List.Perm.nil⟩⟩
      intro hhad
      exact (hhad ⟨_, List.mem_singleton_self _⟩).elim
    · rintro p g' ⟨⟩
      exact ⟨records, h.longer _⟩
  | some answer =>
    obtain ⟨r, old⟩ := answer
    have hchunk : malloc.chunk ≠ 0 := by
      by_cases hlist : (g.bank (bankIndex (headedSize w size))).chunkList = none
      · exact (hfirst hlist).resolve_left (by simp [hrecord])
      · exact (hnext hlist).2
    obtain ⟨chunk, -, hadd, hbook⟩ := h.addBank (bankIndex_lt.mpr hsmall) hrecord hchunk hfresh
    rw [memAlloc_grown hsmall havailable hadd]
    constructor
    · refine ⟨_, _, rfl, fun _ => Nat.succ_ne_zero _, ?_⟩
      intro hrefused
      exact (not_refused_memAddBankLog hrecord hchunk hrefused).elim
    · intro p g' heq
      obtain ⟨-, rfl⟩ := Prod.mk.inj (Option.some.inj heq)
      exact ⟨_, hbook.handOut ..⟩

/-- A call that finds memory where the pool counts on it keeps the books. -/
theorem Bookkept.alloc (h : Bookkept g records log) {limit size : ℕ}
    (hfresh : MallocFresh limit (log ++ memAllocLog w g size malloc))
    (hlimit : headedSize w size ≠ maxMemAllocatableSize)
    (hprovides : headedSize w size < maxMemAllocatableSize →
      (g.bank (bankIndex (headedSize w size))).available = 0 →
        ((g.bank (bankIndex (headedSize w size))).chunkList = none →
          malloc.record = none ∨ malloc.chunk ≠ 0) ∧
        ((g.bank (bankIndex (headedSize w size))).chunkList ≠ none →
          malloc.record ≠ none ∧ malloc.chunk ≠ 0)) :
    FailsCleanly w g size malloc ∧ ∀ p g', memAlloc w g size malloc = some (p, g') →
      ∃ records', Bookkept g' records' (log ++ memAllocLog w g size malloc) := by
  rcases lt_trichotomy (headedSize w size) maxMemAllocatableSize with hsmall | heq | hlarge
  · by_cases havailable : (g.bank (bankIndex (headedSize w size))).available = 0
    · obtain ⟨hfirst, hnext⟩ := hprovides hsmall havailable
      exact h.allocGrown hfresh hsmall havailable hfirst hnext
    · exact h.allocFree hsmall havailable
  · exact (hlimit heq).elim
  · exact h.allocLarge hlarge

end Bookkept

/-- The invariant of runs that find memory where the pool counts on it. -/
def PoolTrace.Booked (t : PoolTrace) : Prop :=
  ∃ records, Bookkept t.state.pool records t.log

theorem PoolTrace.Booked.step {w : ℕ} {t t' : PoolTrace} {op : PoolOp} (h : t.Booked)
    (hfresh : t.Fresh w op) (hfinds : t.FindsMemory w op) (hstep : tracedStep w t op = some t') :
    t'.Booked := by
  obtain ⟨records, h⟩ := h
  obtain ⟨s, hs, rfl⟩ := Option.map_eq_some_iff.mp hstep
  cases op with
  | alloc size malloc =>
    obtain ⟨⟨p, g'⟩, halloc, rfl⟩ := Option.map_eq_some_iff.mp hs
    exact (h.alloc hfresh hfinds.1 hfinds.2).2 p g' halloc
  | free block =>
    obtain ⟨g', hfree, rfl⟩ := Option.map_eq_some_iff.mp hs
    exact ⟨records, (h.free hfree).longer []⟩
  | write block offset byte =>
    obtain rfl := Option.some.inj hs
    exact ⟨records, (h.setMem _).longer []⟩

end MorningProjects.Pool
