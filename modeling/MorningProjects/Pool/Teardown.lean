import MorningProjects.Pool.Bookkeeping

/-!
# Taking the pool down

`mem_pool_destroy` resets the banks that have chunks. It leaves a clean pool behind when
every free node lies in such a bank, and finds whole records as long as no bank grows a
second time: then the record has the size of a pointer. Nodes have to be long enough for
their links.
-/
namespace MorningProjects.Pool
open Library

/-- `mem_pool_destroy` stays inside of the records, frees every record and every chunk once, and
leaves the banks as `mem_pool_init` does. -/
def PoolTrace.TearsDown (w : ℕ) (t : PoolTrace) : Prop :=
  ∃ fuel g log, memPoolDestroy fuel t.state.pool = some (.ok, g, log) ∧
    InBounds (RecordField.reach w) (t.log ++ log) ∧ FreedOnce (t.log ++ log) ∧
    g.bank = (memPoolInit g).bank

def PoolTrace.CallTearsDown (w : ℕ) (t : PoolTrace) (op : PoolOp) : Prop :=
  ∃ t', tracedStep w t op = some t' ∧ t'.TearsDown w

/-- Sizes are those of the pool, callers use what they have, and `malloc` has memory, wherever it is
not in use. -/
def PoolTrace.Supplied (w : ℕ) (t : PoolTrace) (op : PoolOp) : Prop :=
  t.Fresh w op ∧ t.Uses op ∧ ∀ size malloc, op = .alloc size malloc →
    size + 1 < maxMemAllocatableSize ∧ malloc.record ≠ none ∧ malloc.chunk ≠ 0

/-- No bank grows that has chunks, and what is given back goes to a bank that has some. -/
def PoolTrace.GrowsOnce (w : ℕ) (t : PoolTrace) : PoolOp → Prop
  | .alloc size _ =>
    (t.state.pool.bank (bankIndex (headedSize w size))).available = 0 →
      (t.state.pool.bank (bankIndex (headedSize w size))).chunkList = none
  | .free block =>
    1 < block.ptr ∧ (t.state.pool.mem (block.ptr - 1)).toNat < maxMemAllocatableSize ∧
      (t.state.pool.bank (t.state.pool.mem (block.ptr - 1)).toNat).chunkList ≠ none
  | .write _ _ _ => True

def PoolTrace.StaysWhole (w : ℕ) (t : PoolTrace) (op : PoolOp) : Prop :=
  t.GrowsOnce w op ∧ op.Linkable w

structure Whole (w : ℕ) (g : MemPool) (records : ℕ → List ℕ) (log : PoolLog) : Prop where
  books : Bookkept g records log
  sized : ∀ b, ∀ r ∈ records b, ∀ bytes, (r, bytes) ∈ blocks log → sizeofMemChunk w ≤ bytes
  inBounds : InBounds (RecordField.reach w) log
  freedOnce : FreedOnce (log ++ destroyLog g.chunk records)
  empty : ∀ b, records b = [] → (g.bank b).available = 0

section Whole

variable {w : ℕ} {g g' : MemPool} {records : ℕ → List ℕ} {log : PoolLog} {malloc : PoolMallocs}
  {b r : ℕ} {old : LinkNode ℕ ℕ}

theorem RecordField.reach_le (w : ℕ) (f : RecordField) : f.reach w ≤ sizeofMemChunk w := by
  rw [sizeofMemChunk]
  cases f <;> rw [RecordField.reach] <;> omega

theorem blocks_recordLog (heap : LinkHeap ℕ ℕ) (r : ℕ) : blocks (recordLog heap r) = [] := by
  rw [recordLog]
  cases (readData heap (some r)).bind answerOf <;> rfl

theorem blocks_destroyLog (heap : LinkHeap ℕ ℕ) (records : ℕ → List ℕ) :
    blocks (destroyLog heap records) = [] := by
  rw [blocks, destroyLog, List.filterMap_flatMap]
  apply List.flatMap_eq_nil_iff.mpr
  intro b _
  rw [List.filterMap_flatMap]
  apply List.flatMap_eq_nil_iff.mpr
  intro r _
  exact blocks_recordLog heap r

theorem mem_destroyLog_write {heap : LinkHeap ℕ ℕ} {a : ℕ} {f : RecordField} :
    HeapEvent.write a f ∉ destroyLog heap records := by
  intro hmem
  obtain ⟨b, -, hb⟩ := List.mem_flatMap.mp hmem
  obtain ⟨r, -, hwrite⟩ := List.mem_flatMap.mp hb
  simp [recordLog] at hwrite

theorem Whole.tearsDown {t : PoolTrace} (h : Whole w t.state.pool records t.log) :
    t.TearsDown w := by
  obtain ⟨fuel, g', hdestroy, hbank⟩ := h.books.destroy
  refine ⟨fuel, g', _, hdestroy, ?_, h.freedOnce, ?_⟩
  · intro a f haccess
    rw [blocks_append, blocks_destroyLog, List.append_nil]
    have hwrite : HeapEvent.write a f ∉ destroyLog t.state.pool.chunk records :=
      mem_destroyLog_write
    have hside : (HeapEvent.read a f ∈ t.log ∨ HeapEvent.write a f ∈ t.log) ∨
        HeapEvent.read a f ∈ destroyLog t.state.pool.chunk records := by
      simp only [List.mem_append] at haccess
      tauto
    rcases hside with hside | hread
    · exact h.inBounds a f hside
    · obtain ⟨b, hb⟩ := mem_destroyLog_read hread
      obtain ⟨bytes, hblock⟩ := h.books.known b a hb
      refine ⟨bytes, hblock, ?_⟩
      intro bytes' hblock'
      exact le_trans (f.reach_le w) (h.sized b a hb bytes' hblock')
  · funext b
    rw [hbank]
    change _ = MemBank.mk none none 0
    by_cases hnil : records b = []
    · have hbankb : t.state.pool.bank b = ⟨none, none, 0⟩ := by
        have hlist := h.books.keeps.chunkList b
        have htail := h.books.keeps.chunkTail b
        have hempty := h.empty b hnil
        rw [hnil] at hlist htail
        generalize t.state.pool.bank b = bank at hlist htail hempty
        obtain ⟨chunkTail, chunkList, available⟩ := bank
        obtain rfl : chunkList = none := hlist
        obtain rfl : chunkTail = none := htail
        obtain rfl : available = 0 := hempty
        rfl
      rw [resetBank, if_pos hnil, hbankb]
      split_ifs <;> rfl
    · have hlt : b < maxMemAllocatableSize := by
        by_contra hge
        exact hnil (h.books.beyond b (not_lt.mp hge))
      rw [if_pos hlt, resetBank, if_neg hnil]

theorem Whole.setMem (h : Whole w g records log) (mem : Memory) :
    Whole w { g with mem := mem } records log :=
  ⟨h.books.setMem mem, h.sized, h.inBounds, h.freedOnce, h.empty⟩

theorem Whole.setAvailable (h : Whole w g records log) (mem : Memory) {index : ℕ} (node : ℕ)
    (hne : records index ≠ []) :
    Whole w ({ g with mem := mem }.setBank index { g.bank index with available := node })
      records log := by
  refine ⟨h.books.setAvailable mem index node, h.sized, h.inBounds, h.freedOnce, ?_⟩
  intro b hnil
  rw [setBank_bank, if_neg (by rintro rfl; exact hne hnil)]
  exact h.empty b hnil

theorem memAddBankLog_first (hlist : (g.bank b).chunkList = none)
    (hrecord : malloc.record = some (r, old)) (hchunk : malloc.chunk ≠ 0) :
    memAddBankLog w g b malloc =
      [.malloc (some r) (sizeofMemChunk w),
        .malloc (some malloc.chunk) (numMemNodesPerBank * b),
        .write r .pMemChunk, .read r .pMemChunk,
        .write r .nextChunk, .write r .previousChunk, .read r .pMemChunk] := by
  rw [memAddBankLog, hlist]
  dsimp only
  rw [memBankInitLog, hrecord]
  dsimp only
  rw [if_neg hchunk, answerOf_eq hchunk]
  rfl

theorem blocks_memAddBankLog_first (hlist : (g.bank b).chunkList = none)
    (hrecord : malloc.record = some (r, old)) (hchunk : malloc.chunk ≠ 0) :
    blocks (memAddBankLog w g b malloc) =
      [(r, sizeofMemChunk w), (malloc.chunk, numMemNodesPerBank * b)] := by
  rw [memAddBankLog_first hlist hrecord hchunk]
  rfl

theorem mem_blocks_memAddBankLog_first {limit : ℕ} (hlist : (g.bank b).chunkList = none)
    (hrecord : malloc.record = some (r, old)) (hchunk : malloc.chunk ≠ 0)
    (hfresh : MallocFresh limit (log ++ memAddBankLog w g b malloc)) {bytes : ℕ} :
    (r, bytes) ∈ blocks (memAddBankLog w g b malloc) ↔ bytes = sizeofMemChunk w := by
  have hapart := (List.pairwise_append.mp (blocks_append ▸ hfresh.apart)).2.1
  rw [blocks_memAddBankLog_first hlist hrecord hchunk] at hapart ⊢
  have hr := (List.pairwise_cons.mp hapart).1 _ (List.mem_singleton_self _)
  constructor
  · intro hmem
    rcases List.mem_cons.mp hmem with heq | hmem
    · exact (Prod.mk.inj heq).2
    · exact (hr.1 (Prod.mk.inj (List.mem_singleton.mp hmem)).1).elim
  · rintro rfl
    exact List.mem_cons_self

theorem access_memAddBankLog_first (hlist : (g.bank b).chunkList = none)
    (hrecord : malloc.record = some (r, old)) (hchunk : malloc.chunk ≠ 0) {a : ℕ}
    {f : RecordField} (haccess : HeapEvent.read a f ∈ memAddBankLog w g b malloc ∨
      HeapEvent.write a f ∈ memAddBankLog w g b malloc) : a = r := by
  rw [memAddBankLog_first hlist hrecord hchunk] at haccess
  simp only [List.mem_cons, HeapEvent.read.injEq, HeapEvent.write.injEq, reduceCtorEq,
    List.not_mem_nil, or_false, false_or] at haccess
  tauto

theorem flatMap_perm_append {α β : Type*} {l : List α} (hnodup : l.Nodup) {x : α} (hx : x ∈ l)
    {f f' : α → List β} (hf : f x = []) (hf' : ∀ y ∈ l, y ≠ x → f' y = f y) :
    (l.flatMap f').Perm (l.flatMap f ++ f' x) := by
  induction l with
  | nil => cases hx
  | cons y l ih =>
    obtain ⟨hy, hnodup⟩ := List.nodup_cons.mp hnodup
    rw [List.flatMap_cons, List.flatMap_cons]
    by_cases hyx : y = x
    · have hrest : l.flatMap f' = l.flatMap f := by
        apply List.flatMap_congr
        intro z hz
        apply hf' z (List.mem_cons_of_mem y hz)
        rintro rfl
        exact hy (hyx ▸ hz)
      rw [hyx, hf, hrest, List.nil_append]
      exact List.perm_append_comm
    · have hmem : x ∈ l := (List.mem_cons.mp hx).resolve_left fun h => hyx h.symm
      rw [hf' y List.mem_cons_self hyx, List.append_assoc]
      apply List.Perm.append_left
      exact ih hnodup hmem fun z hz => hf' z (List.mem_cons_of_mem y hz)

theorem freed_recordLog {heap : LinkHeap ℕ ℕ} {p q : Option ℕ} {c : ℕ}
    (hr : heap r = some ⟨p, q, c⟩) (hc : c ≠ 0) : freed (recordLog heap r) = [c, r] := by
  rw [recordLog, readData_eq hr, Option.bind_some, answerOf_eq hc]
  rfl

/-- With its first record a bank gives back two blocks more. -/
theorem freed_destroyLog_first (h : KeepsRecords g records) (hb : b < maxMemAllocatableSize)
    (hr : g.chunk r = none) (hnil : records b = []) {chunk : LinkHeap ℕ ℕ} {c : ℕ}
    (hadded : RecordAdded g.chunk chunk (records b) r c) (hc : c ≠ 0) :
    (freed (destroyLog chunk (Function.update records b (records b ++ [r])))).Perm
      (freed (destroyLog g.chunk records) ++ [c, r]) := by
  rw [freed, freed, destroyLog, destroyLog, List.filterMap_flatMap,
    List.filterMap_flatMap]
  have hlast : List.filterMap HeapEvent.freed?
      ((Function.update records b (records b ++ [r]) b).reverse.flatMap (recordLog chunk)) =
        [c, r] := by
    rw [Function.update_self, hnil, List.nil_append, List.reverse_singleton,
      List.flatMap_singleton]
    exact freed_recordLog hadded.new hc
  rw [← hlast]
  apply flatMap_perm_append List.nodup_range (List.mem_range.mpr hb)
  · rw [hnil]
    rfl
  · intro b' _ hne
    rw [Function.update_of_ne hne]
    congr 1
    apply List.flatMap_congr
    intro x hx
    apply recordLog_congr
    apply hadded.other x
    · rintro rfl
      exact h.not_mem hr b' (List.mem_reverse.mp hx)
    · rw [hnil]
      exact List.not_mem_nil

/-- The blocks of a first record are freed with those before. -/
theorem Whole.freedOnce_addBank (h : Whole w g records log) (hb : b < maxMemAllocatableSize)
    (hlist : (g.bank b).chunkList = none) (hrecord : malloc.record = some (r, old))
    (hchunk : malloc.chunk ≠ 0) (hr : g.chunk r = none) (hnil : records b = [])
    {chunk : LinkHeap ℕ ℕ} (hadded : RecordAdded g.chunk chunk (records b) r malloc.chunk) :
    FreedOnce (log ++ memAddBankLog w g b malloc ++
      destroyLog chunk (Function.update records b (records b ++ [r]))) := by
  have hnone : freed (memAddBankLog w g b malloc) = [] := by
    rw [memAddBankLog_first hlist hrecord hchunk]
    rfl
  have hbefore := h.freedOnce
  rw [FreedOnce, freed_append, blocks_append, blocks_destroyLog, List.append_nil] at hbefore
  rw [FreedOnce, freed_append, freed_append, blocks_append, blocks_append, blocks_destroyLog,
    hnone, blocks_memAddBankLog_first hlist hrecord hchunk, List.append_nil, List.append_nil,
    List.map_append]
  have hfreed := freed_destroyLog_first h.books.keeps hb hr hnil hadded hchunk
  apply (hfreed.append_left _).trans
  rw [← List.append_assoc]
  exact hbefore.append (List.Perm.swap ..)

theorem Whole.addBank (h : Whole w g records log) {limit : ℕ} (hb : b < maxMemAllocatableSize)
    (hlist : (g.bank b).chunkList = none) (hrecord : malloc.record = some (r, old))
    (hchunk : malloc.chunk ≠ 0) (hfresh : MallocFresh limit (log ++ memAddBankLog w g b malloc)) :
    ∃ g', memAddBank w g b malloc = some (.ok, g') ∧
      Whole w g' (Function.update records b (records b ++ [r]))
        (log ++ memAddBankLog w g b malloc) := by
  have hnil : records b = [] := by
    rw [h.books.keeps.chunkList] at hlist
    exact List.head?_eq_none_iff.mp hlist
  have hfirst : (r, sizeofMemChunk w) ∈ blocks (memAddBankLog w g b malloc) :=
    (mem_blocks_memAddBankLog_first hlist hrecord hchunk hfresh).mpr rfl
  have hr : g.chunk r = none := by
    obtain ⟨⟨bytes, hblock⟩, -⟩ := memAddBankLog_record w g b hrecord hchunk
    exact h.books.fresh hfresh hblock
  obtain ⟨chunk, hadded, hadd, hbooks⟩ := h.books.addBank hb hrecord hchunk hfresh
  refine ⟨_, hadd, hbooks, ?_, ?_, h.freedOnce_addBank hb hlist hrecord hchunk hr hnil hadded, ?_⟩
  · intro b' x hx bytes hmem
    rw [blocks_append] at hmem
    rcases mem_update_concat.mp hx with hx | ⟨-, rfl⟩
    · rcases List.mem_append.mp hmem with hmem | hmem
      · exact h.sized b' x hx bytes hmem
      · obtain ⟨bytes', hknown⟩ := h.books.known b' x hx
        exact ((hfresh.apart_of_mem hknown hmem).1 rfl).elim
    · rcases List.mem_append.mp hmem with hmem | hmem
      · exact ((hfresh.apart_of_mem hmem hfirst).1 rfl).elim
      · exact ((mem_blocks_memAddBankLog_first hlist hrecord hchunk hfresh).mp hmem).ge
  · apply h.inBounds.append _ hfresh
    intro a f haccess
    obtain rfl : a = r := access_memAddBankLog_first hlist hrecord hchunk haccess
    refine ⟨sizeofMemChunk w, hfirst, ?_⟩
    intro bytes hmem
    rw [(mem_blocks_memAddBankLog_first hlist hrecord hchunk hfresh).mp hmem]
    exact f.reach_le w
  · intro b' hnil'
    rw [setBank_bank]
    by_cases hbb : b' = b
    · rw [hbb, Function.update_self, hnil] at hnil'
      cases hnil'
    · rw [if_neg hbb]
      rw [Function.update_of_ne hbb] at hnil'
      exact h.empty b' hnil'

theorem Whole.alloc (h : Whole w g records log) (hw : 0 < w) {limit size : ℕ}
    (hfresh : MallocFresh limit (log ++ memAllocLog w g size malloc))
    (hmax : size + 1 < maxMemAllocatableSize) (hrecord : malloc.record = some (r, old))
    (hchunk : malloc.chunk ≠ 0)
    (hstays : (g.bank (bankIndex (headedSize w size))).available = 0 →
      (g.bank (bankIndex (headedSize w size))).chunkList = none) :
    ∃ p g' records', memAlloc w g size malloc = some (p, g') ∧
      Whole w g' records' (log ++ memAllocLog w g size malloc) := by
  have hsmall : headedSize w size < maxMemAllocatableSize := by rwa [headedSize_eq hw hmax]
  rw [memAllocLog_small hsmall] at hfresh ⊢
  by_cases havailable : (g.bank (bankIndex (headedSize w size))).available = 0
  · rw [if_pos havailable] at hfresh ⊢
    obtain ⟨g₁, hadd, hwhole⟩ :=
      h.addBank (bankIndex_lt.mpr hsmall) (hstays havailable) hrecord hchunk hfresh
    refine ⟨_, _, _, memAlloc_grown hsmall havailable hadd, hwhole.setAvailable _ _ ?_⟩
    rw [Function.update_self]
    simp
  · rw [if_neg havailable, List.append_nil]
    refine ⟨_, _, records, memAlloc_free hsmall havailable, h.setAvailable _ _ ?_⟩
    exact fun hnil => havailable (h.empty _ hnil)

theorem Whole.free (h : Whole w g records log) {membit : ℕ} (hptr : 1 < membit)
    (hindex : (g.mem (membit - 1)).toNat < maxMemAllocatableSize)
    (hlist : (g.bank (g.mem (membit - 1)).toNat).chunkList ≠ none) :
    ∃ g', memFree w g membit = some g' ∧ Whole w g' records log := by
  refine ⟨_, memFree_eq hptr hindex, h.setAvailable _ _ ?_⟩
  intro hnil
  rw [h.books.keeps.chunkList, hnil] at hlist
  exact hlist rfl

end Whole

def PoolTrace.Sound (w : ℕ) (t : PoolTrace) : Prop :=
  ∃ records, Whole w t.state.pool records t.log

section Steps

variable {w : ℕ} {t : PoolTrace} {op : PoolOp}

theorem PoolTrace.Sound.step (h : t.Sound w) (hw : 0 < w) (hsupplied : t.Supplied w op)
    (hgrows : t.GrowsOnce w op) : ∃ t', tracedStep w t op = some t' ∧ t'.Sound w := by
  obtain ⟨records, h⟩ := h
  obtain ⟨hfresh, -, hsupplied⟩ := hsupplied
  cases op with
  | alloc size malloc =>
    obtain ⟨hmax, hrecord, hchunk⟩ := hsupplied size malloc rfl
    obtain ⟨⟨r, old⟩, hrecord⟩ := Option.ne_none_iff_exists'.mp hrecord
    obtain ⟨p, g', records', halloc, h'⟩ := h.alloc hw hfresh hmax hrecord hchunk hgrows
    refine ⟨⟨⟨g', if p = 0 then t.state.live else ⟨p, size⟩ :: t.state.live⟩, _⟩, ?_, records', h'⟩
    rw [tracedStep, poolStep, halloc]
    rfl
  | free block =>
    obtain ⟨hptr, hindex, hlist⟩ := hgrows
    obtain ⟨g', hfree, h'⟩ := h.free hptr hindex hlist
    refine ⟨⟨⟨g', t.state.live.erase block⟩, t.log ++ []⟩, ?_, records, ?_⟩
    · rw [tracedStep, poolStep, hfree]
      rfl
    · rw [List.append_nil]
      exact h'
  | write block offset byte =>
    refine ⟨_, rfl, records, ?_⟩
    rw [opLog, List.append_nil]
    exact h.setMem _

/-- On the growth path a field is written behind the end of the record. -/
theorem not_inBounds_growth (hw : 0 < w) {g : MemPool} {b : ℕ} {malloc : PoolMallocs}
    (hlist : (g.bank b).chunkList ≠ none) (hrecord : malloc.record ≠ none) {log log' : PoolLog} :
    ¬ InBounds (RecordField.reach w) (log ++ memAddBankLog w g b malloc ++ log') := by
  intro hbounds
  obtain ⟨first, hfirst⟩ := Option.ne_none_iff_exists'.mp hlist
  obtain ⟨⟨r, old⟩, hrecord⟩ := Option.ne_none_iff_exists'.mp hrecord
  have hwrite : HeapEvent.write r .nextChunk ∈ memAddBankLog w g b malloc := by
    simp [memAddBankLog, hfirst, hrecord]
  have hblock : (r, w) ∈ blocks (memAddBankLog w g b malloc) := by
    apply mem_blocks.mpr
    simp [memAddBankLog, hfirst, hrecord]
  obtain ⟨-, -, hreach⟩ := hbounds r .nextChunk
    (.inr (List.mem_append_left _ (List.mem_append_right _ hwrite)))
  have hle := hreach w (by
    rw [blocks_append, blocks_append]
    exact List.mem_append_left _ (List.mem_append_right _ hblock))
  rw [RecordField.reach] at hle
  omega

theorem PoolTrace.CallTearsDown.growsOnce (h : t.CallTearsDown w op) (hw : 0 < w)
    (hsupplied : t.Supplied w op) : t.GrowsOnce w op := by
  obtain ⟨t', hstep, fuel, g', log, hdestroy, hbounds, -, hinit⟩ := h
  obtain ⟨s, hs, rfl⟩ := Option.map_eq_some_iff.mp hstep
  cases op with
  | alloc size malloc =>
    obtain ⟨hmax, hrecord, -⟩ := hsupplied.2.2 size malloc rfl
    intro havailable
    by_contra hlist
    have hsmall : headedSize w size < maxMemAllocatableSize := by rwa [headedSize_eq hw hmax]
    change InBounds _ (t.log ++ memAllocLog w t.state.pool size malloc ++ log) at hbounds
    rw [memAllocLog_small hsmall, if_pos havailable] at hbounds
    exact not_inBounds_growth hw hlist hrecord hbounds
  | free block =>
    obtain ⟨g, hfree, rfl⟩ := Option.map_eq_some_iff.mp hs
    obtain ⟨hptr, hindex, rfl⟩ := memFree_cases hfree
    refine ⟨hptr, hindex, ?_⟩
    intro hlist
    obtain ⟨⟨g₂, log₂⟩, hbanks, heq⟩ := Option.map_eq_some_iff.mp hdestroy
    obtain ⟨-, heq⟩ := Prod.mk.inj heq
    obtain ⟨rfl, -⟩ := Prod.mk.inj heq
    -- the node stays behind in a bank that is not reset
    have hbank := destroyBanks_unlisted (b := (t.state.pool.mem (block.ptr - 1)).toNat)
      (by rw [setBank_bank, if_pos rfl]; exact hlist) hbanks
    rw [setBank_bank, if_pos rfl, hinit] at hbank
    have hzero := congrArg MemBank.available hbank
    change 0 = block.ptr - 1 at hzero
    omega
  | write block offset byte => trivial

theorem PoolTrace.Sound.callTearsDown_iff (h : t.Sound w) (hw : 0 < w)
    (hsupplied : t.Supplied w op) : t.CallTearsDown w op ↔ t.GrowsOnce w op := by
  constructor
  · intro hcall
    exact hcall.growsOnce hw hsupplied
  · intro hgrows
    obtain ⟨t', hstep, records, h'⟩ := h.step hw hsupplied hgrows
    exact ⟨t', hstep, h'.tearsDown⟩

theorem sound_start (w : ℕ) (mem : Memory) : (PoolTrace.start mem).Sound w := by
  refine ⟨fun _ => [], bookkept_start mem, ?_, ?_, ?_, ?_⟩
  · intro b r hr
    cases hr
  · intro a f haccess
    rcases haccess with hread | hwrite
    · cases hread
    · cases hwrite
  · exact List.Perm.refl []
  · intro b _
    rfl

end Steps

/-- In every run after `mem_pool_init` with sizes of the pool and memory wherever it is asked for,
the pool can be taken down after every call, if the nodes can be linked, no bank grows that has
chunks and every block given back goes to a bank that has some. As long as the nodes can be linked,
the other conditions are needed, too. -/
theorem pool_run_tearsDown_iff (w : ℕ) (hw : 0 < w) (mem : Memory) (ops : List PoolOp)
    (hops : Along (tracedStep w) (PoolTrace.Supplied w) (PoolTrace.start mem) ops) :
    (Along (tracedStep w) (PoolTrace.StaysWhole w) (PoolTrace.start mem) ops →
      Along (tracedStep w) (PoolTrace.CallTearsDown w) (PoolTrace.start mem) ops) ∧
    (Along (tracedStep w) (fun _ op => op.Linkable w) (PoolTrace.start mem) ops →
      Along (tracedStep w) (PoolTrace.CallTearsDown w) (PoolTrace.start mem) ops →
        Along (tracedStep w) (PoolTrace.StaysWhole w) (PoolTrace.start mem) ops) := by
  have hkeep : ∀ (t : PoolTrace) op t', t.Sound w → t.Supplied w op → t.GrowsOnce w op →
      tracedStep w t op = some t' → t'.Sound w := by
    intro t op t' h hsupplied hgrows hstep
    obtain ⟨t₁, hstep₁, h'⟩ := h.step hw hsupplied hgrows
    rw [hstep] at hstep₁
    exact Option.some.inj hstep₁ ▸ h'
  have hiff : Along (tracedStep w) (PoolTrace.CallTearsDown w) (PoolTrace.start mem) ops ↔
      Along (tracedStep w) (PoolTrace.GrowsOnce w) (PoolTrace.start mem) ops :=
    along_iff_of_permitted (fun _ _ h hsupplied => h.callTearsDown_iff hw hsupplied) hkeep
      (sound_start w mem) hops
  constructor
  · intro hwhole
    exact hiff.mpr (hwhole.mono fun _ _ h => h.1)
  · intro hlinkable htears
    exact along_and.mpr ⟨hiff.mp htears, hlinkable⟩

/-- A block of a bank is given back, and the pool taken down. -/
theorem pool_run_tearsDown_iff_example :
    Along (tracedStep 4) (PoolTrace.CallTearsDown 4) (PoolTrace.start fun _ => 0)
      [.alloc 5 ⟨some (2000, ⟨none, none, 0⟩), 1000, 0⟩, .free ⟨1001, 5⟩] := by
  refine (pool_run_tearsDown_iff 4 (by decide) _ _ ?_).1 ?_
  · constructor
    · refine ⟨⟨by decide, by decide⟩, trivial, ?_⟩
      rintro size malloc ⟨⟩
      exact ⟨by decide, by simp, by decide⟩
    rintro _ ⟨⟩
    constructor
    · refine ⟨⟨by decide, by decide⟩, List.mem_cons_self, ?_⟩
      intro size malloc hop
      cases hop
    · intro t _
      trivial
  · constructor
    · exact ⟨fun _ => rfl, by decide⟩
    rintro _ ⟨⟩
    constructor
    · exact ⟨⟨by decide, by decide, by decide⟩, by decide⟩
    · intro t _
      trivial

/-- A block of two bytes comes from bank 4 and goes to bank 3, which is not reset. -/
theorem pool_run_not_tearsDown :
    Along (tracedStep 4) (PoolTrace.Supplied 4) (PoolTrace.start fun _ => 0)
        [.alloc 2 ⟨some (2000, ⟨none, none, 0⟩), 1000, 0⟩, .free ⟨1001, 2⟩] ∧
      ¬ Along (tracedStep 4) (PoolTrace.CallTearsDown 4) (PoolTrace.start fun _ => 0)
        [.alloc 2 ⟨some (2000, ⟨none, none, 0⟩), 1000, 0⟩, .free ⟨1001, 2⟩] := by
  have hsupplied : Along (tracedStep 4) (PoolTrace.Supplied 4) (PoolTrace.start fun _ => 0)
      [.alloc 2 ⟨some (2000, ⟨none, none, 0⟩), 1000, 0⟩, .free ⟨1001, 2⟩] := by
    constructor
    · refine ⟨⟨by decide, by decide⟩, trivial, ?_⟩
      rintro size malloc ⟨⟩
      exact ⟨by decide, by simp, by decide⟩
    rintro _ ⟨⟩
    constructor
    · refine ⟨⟨by decide, by decide⟩, List.mem_cons_self, ?_⟩
      intro size malloc hop
      cases hop
    · intro t _
      trivial
  refine ⟨hsupplied, ?_⟩
  rintro ⟨-, hrest⟩
  obtain ⟨hcall, -⟩ := hrest _ rfl
  obtain ⟨hfree, -⟩ := hsupplied.2 _ rfl
  obtain ⟨-, -, hlist⟩ := hcall.growsOnce (by decide) hfree
  exact hlist (by decide)

end MorningProjects.Pool
