import MorningProjects.Pool.Bookkeeping

/-!
# Which allocator serves a request

A bank hands out its nodes and marks them with a size; `mem_free` takes the bank from
the mark. The two agree, and a node has room for the request and for a pointer, for
sizes that have a bank of their own. A block from the system has no mark.
-/
namespace MorningProjects.Pool
open Library

inductive Allocator where
  | bank (index : ℕ)
  | system
  deriving DecidableEq, Repr

def allocatorOf (w size : ℕ) : Allocator :=
  if maxMemAllocatableSize < headedSize w size then .system
  else .bank (bankIndex (headedSize w size))

/-- A block has that many bytes: it is a node of its bank, or a block of the system. -/
def HasRoom (log : PoolLog) (p bytes : ℕ) : Allocator → Prop
  | .bank b => bytes ≤ b ∧ ∃ c, (c, numMemNodesPerBank * b) ∈ blocks log ∧
      ∃ i < numMemNodesPerBank, p = c + i * b + 1
  | .system => ∃ n, (p, n) ∈ blocks log ∧ bytes ≤ n

/-- `mem_free` gives a block back: it becomes the first free node of its bank and no other bank
changes; or no bank gets it. -/
def GoesBack (w : ℕ) (g : MemPool) (p : ℕ) : Allocator → Prop
  | .bank b => ∃ g', memFree w g p = some g' ∧ (g'.bank b).available = p - 1 ∧
      readWord g'.mem (p - 1) w = (g.bank b).available ∧ ∀ b', b' ≠ b → g'.bank b' = g.bank b'
  | .system => ∃ g', memFree w g p = some g' ∧ ∀ b, (g'.bank b).available ≠ p - 1

/-- The bank is one of the pool, the block has room for the request with its mark and for a
pointer, and it goes back to where it came from. -/
structure PoolTrace.Served (w : ℕ) (t : PoolTrace) (size : ℕ) (malloc : PoolMallocs) : Prop where
  inside : ∀ b, allocatorOf w size = .bank b → b < maxMemAllocatableSize
  served : ∃ p g, memAlloc w t.state.pool size malloc = some (p, g) ∧ p ≠ 0 ∧
    HasRoom (t.log ++ memAllocLog w t.state.pool size malloc) p (max (size + 1) w)
      (allocatorOf w size) ∧
    GoesBack w g p (allocatorOf w size)

/-- Callers ask for sizes that have a bank of their own, free what they have and write to it;
`malloc` may fail. -/
def PoolTrace.Behaves (w : ℕ) (t : PoolTrace) (op : PoolOp) : Prop :=
  t.Fresh w op ∧ match op with
  | .alloc size _ => w ≤ size + 1 ∧ size + 1 < maxMemAllocatableSize
  | .free block => block ∈ t.state.live
  | .write block offset _ => block ∈ t.state.live ∧ offset < block.size

def TailsLive (g : MemPool) : Prop :=
  ∀ b, (g.bank b).chunkList ≠ none → ∃ r, (g.bank b).chunkTail = some r ∧ (g.chunk r).isSome

section AddBank

variable {w : ℕ} {g g' : MemPool} {b : ℕ} {malloc : PoolMallocs} {status : SystemStatus}

/-- A bank gets a record and a chunk, a record without a chunk, or nothing. -/
theorem memAddBank_cases (h : memAddBank w g b malloc = some (status, g')) :
    (∃ r heap list, malloc.record ≠ none ∧ malloc.chunk ≠ 0 ∧ status = .ok ∧ (heap r).isSome ∧
      (∀ x, (g.chunk x).isSome → (heap x).isSome) ∧
      g' = { g with chunk := heap, mem := memListFormat w g.mem malloc.chunk b }.setBank b
        ⟨some r, list, malloc.chunk⟩) ∨
    (∃ r heap, malloc.chunk = 0 ∧ status = .fail ∧ (heap r).isSome ∧
      (∀ x, (g.chunk x).isSome → (heap x).isSome) ∧
      g' = { g with chunk := heap }.setBank b
        { g.bank b with chunkList := some r, chunkTail := some r }) ∨
    status = .fail ∧ g' = g := by
  have hupdate : ∀ (r : ℕ) n x, (g.chunk x).isSome →
      (Function.update g.chunk r (some n) x).isSome := by
    intro r n x hx
    rw [Function.update_apply]
    split_ifs
    · rfl
    · exact hx
  rw [memAddBank] at h
  cases hlist : (g.bank b).chunkList with
  | none =>
    rw [hlist] at h
    dsimp only at h
    rw [memBankInit] at h
    cases hrecord : malloc.record with
    | none =>
      rw [hrecord] at h
      obtain ⟨rfl, rfl⟩ := Prod.mk.inj (Option.some.inj h)
      exact .inr (.inr ⟨rfl, rfl⟩)
    | some answer =>
      obtain ⟨r, old⟩ := answer
      rw [hrecord] at h
      dsimp only at h
      split_ifs at h with hchunk
      · obtain ⟨rfl, rfl⟩ := Prod.mk.inj (Option.some.inj h)
        refine .inr (.inl ⟨r, _, hchunk, rfl, ?_, hupdate r _, rfl⟩)
        rw [Function.update_self]
        rfl
      · obtain ⟨rfl, rfl⟩ := Prod.mk.inj (Option.some.inj h)
        refine .inl ⟨r, _, _, by simp, hchunk, rfl, ?_, hupdate r _, rfl⟩
        rw [Function.update_self]
        rfl
  | some first =>
    rw [hlist] at h
    obtain ⟨⟨r, old⟩, hrecord, h⟩ := Option.bind_eq_some_iff.mp h
    dsimp only at h
    split_ifs at h with hchunk
    obtain ⟨heap, hwrite, heq⟩ := Option.map_eq_some_iff.mp h
    obtain ⟨rfl, rfl⟩ := Prod.mk.inj heq
    obtain ⟨-, -, rfl⟩ := Option.map_eq_some_iff.mp hwrite
    refine .inl ⟨r, _, _, by simp [hrecord], hchunk, rfl, ?_, ?_, rfl⟩
    · rw [isSome_setNext, Function.update_self]
      rfl
    · intro x hx
      rw [isSome_setNext]
      exact hupdate r _ x hx

theorem memAddBank_fails (h : memAddBank w g b malloc = some (status, g'))
    (hstatus : status ≠ .ok) :
    g'.mem = g.mem ∧ ∀ b', (g'.bank b').available = (g.bank b').available := by
  rcases memAddBank_cases h with
    ⟨r, heap, list, -, -, hok, -⟩ | ⟨r, heap, -, -, -, -, rfl⟩ | ⟨-, rfl⟩
  · exact (hstatus hok).elim
  · refine ⟨rfl, ?_⟩
    intro b'
    rw [setBank_bank]
    split_ifs with hb
    · rw [hb]
    · rfl
  · exact ⟨rfl, fun _ => rfl⟩

theorem TailsLive.setBank (h : TailsLive g) {heap : LinkHeap ℕ ℕ} (mem : Memory) {r : ℕ}
    (hr : (heap r).isSome) (hheap : ∀ x, (g.chunk x).isSome → (heap x).isSome)
    (list : Option ℕ) (available : ℕ) :
    TailsLive ({ g with chunk := heap, mem := mem }.setBank b ⟨some r, list, available⟩) := by
  intro b' hlist
  rw [setBank_bank] at hlist ⊢
  split_ifs at hlist ⊢ with hb
  · exact ⟨r, rfl, hr⟩
  · obtain ⟨tail, htail, hlive⟩ := h b' hlist
    exact ⟨tail, htail, hheap tail hlive⟩

theorem TailsLive.setAvailable (h : TailsLive g) (mem : Memory) (index node : ℕ) :
    TailsLive ({ g with mem := mem }.setBank index { g.bank index with available := node }) := by
  intro b hlist
  have hsame := setBank_available_chunkList g index node b
  have htail := setBank_available_chunkTail g index node b
  obtain ⟨tail, hb, hlive⟩ := h b (hsame ▸ hlist)
  exact ⟨tail, htail.trans hb, hlive⟩

theorem TailsLive.addBank (h : TailsLive g) (hadd : memAddBank w g b malloc = some (status, g')) :
    TailsLive g' := by
  rcases memAddBank_cases hadd with
    ⟨r, heap, list, -, -, -, hr, hheap, rfl⟩ | ⟨r, heap, -, -, hr, hheap, rfl⟩ | ⟨-, rfl⟩
  · exact h.setBank _ hr hheap list _
  · exact h.setBank g.mem hr hheap _ _
  · exact h

theorem TailsLive.exists_addBank (h : TailsLive g) (w b : ℕ) (hrecord : malloc.record ≠ none)
    (hchunk : malloc.chunk ≠ 0) : ∃ g', memAddBank w g b malloc = some (.ok, g') := by
  obtain ⟨⟨r, old⟩, hrecord⟩ := Option.ne_none_iff_exists'.mp hrecord
  rw [memAddBank]
  cases hlist : (g.bank b).chunkList with
  | none =>
    dsimp only
    rw [memBankInit, hrecord]
    dsimp only
    rw [if_neg hchunk]
    exact ⟨_, rfl⟩
  | some first =>
    obtain ⟨tail, htail, hlive⟩ := h b (by simp [hlist])
    have hsome :
        (Function.update g.chunk r (some ⟨some tail, none, malloc.chunk⟩) tail).isSome := by
      rw [Function.update_apply]
      split_ifs
      · rfl
      · exact hlive
    dsimp only
    rw [hrecord, Option.bind_some]
    dsimp only
    rw [if_neg hchunk, htail, writeNext_eq hsome]
    exact ⟨_, rfl⟩

/-- With memory for both a small request gets a node of its bank; other banks keep theirs. -/
theorem TailsLive.exists_memAlloc (h : TailsLive g) {size : ℕ}
    (hsmall : headedSize w size < maxMemAllocatableSize) (hrecord : malloc.record ≠ none)
    (hchunk : malloc.chunk ≠ 0) :
    ∃ g₁, memAlloc w g size malloc =
        some (handOut w g₁ (bankIndex (headedSize w size)) (headedSize w size)) ∧
      ∀ b, b ≠ bankIndex (headedSize w size) → (g₁.bank b).available = (g.bank b).available := by
  by_cases hnone : (g.bank (bankIndex (headedSize w size))).available = 0
  · obtain ⟨g₁, hadd⟩ := h.exists_addBank w (bankIndex (headedSize w size)) hrecord hchunk
    refine ⟨g₁, memAlloc_grown hsmall hnone hadd, ?_⟩
    intro b hb
    rcases memAddBank_cases hadd with
      ⟨r, heap, list, -, -, -, -, -, rfl⟩ | ⟨r, heap, -, hstatus, -⟩ | ⟨hstatus, -⟩
    · rw [setBank_bank, if_neg hb]
    · cases hstatus
    · cases hstatus
  · exact ⟨g, memAlloc_free hsmall hnone, fun _ _ => rfl⟩

theorem mem_blocks_chunk (hrecord : malloc.record ≠ none) (hchunk : malloc.chunk ≠ 0) :
    (malloc.chunk, numMemNodesPerBank * b) ∈ blocks (memAddBankLog w g b malloc) := by
  obtain ⟨⟨r, old⟩, hrecord⟩ := Option.ne_none_iff_exists'.mp hrecord
  apply mem_blocks.mpr
  cases hlist : (g.bank b).chunkList with
  | none =>
    rw [memAddBankLog, hlist]
    simp [memBankInitLog, hrecord, answerOf_eq hchunk]
  | some first =>
    rw [memAddBankLog, hlist]
    simp [answerOf_eq hchunk]

end AddBank

structure Serving (w : ℕ) (t : PoolTrace) (a : Arena) : Prop where
  live : a.live = t.state.live
  conserves : a.Conserves w
  nodes : HoldsNodes w t.state.pool a
  tails : TailsLive t.state.pool
  chunks : ∀ b, ∀ c ∈ a.chunks b, (c, numMemNodesPerBank * b) ∈ blocks t.log

section Serving

variable {w : ℕ} {g g' : MemPool} {live : List MemBlock} {log : PoolLog} {a : Arena} {size : ℕ}
  {malloc : PoolMallocs}

theorem serving_start (w : ℕ) (mem : Memory) : Serving w (PoolTrace.start mem) Arena.init := by
  refine ⟨rfl, conserves_init w, holdsNodes_init w rfl, ?_, ?_⟩
  · intro b hlist
    exact (hlist rfl).elim
  · intro b c hc
    cases hc

theorem Serving.chunks_append (h : Serving w ⟨⟨g, live⟩, log⟩ a) (log' : PoolLog) (b : ℕ) :
    ∀ c ∈ a.chunks b, (c, numMemNodesPerBank * b) ∈ blocks (log ++ log') := by
  intro c hc
  rw [blocks_append]
  exact List.mem_append_left _ (h.chunks b c hc)

theorem Serving.grow (h : Serving w ⟨⟨g, live⟩, log⟩ a) (hw : 0 < w) {b : ℕ} (hwb : w ≤ b)
    (hb : b < maxMemAllocatableSize) (hnone : (g.bank b).available = 0)
    (hfresh : MallocFresh (256 ^ w) (log ++ memAddBankLog w g b malloc))
    (hadd : memAddBank w g b malloc = some (.ok, g')) :
    Serving w ⟨⟨g', live⟩, log ++ memAddBankLog w g b malloc⟩ (a.grow b malloc.chunk) ∧
      (g'.bank b).available ≠ 0 := by
  rcases memAddBank_cases hadd with
    ⟨r, heap, list, hrecord, hchunk, -, hr, hheap, rfl⟩ | ⟨r, heap, -, hstatus, -⟩ | ⟨hstatus, -⟩
  · have hblock := mem_blocks_chunk (w := w) (g := g) (b := b) hrecord hchunk
    have hfit := (hfresh.fits _ (by
      rw [blocks_append]
      exact List.mem_append_right _ hblock)).2
    have hfree : a.free b = [] := by
      have hchain := h.nodes.free b
      dsimp only at hchain
      rw [hnone] at hchain
      exact hchain.eq_nil
    have hapart : ∀ b', ∀ n ∈ a.nodes b',
        malloc.chunk + numMemNodesPerBank * b ≤ n ∨ n + b' ≤ malloc.chunk := by
      apply apart_nodes
      intro b' c hc
      exact (hfresh.apart_of_mem (h.chunks b' c hc) hblock).2.symm
    refine ⟨⟨h.live, h.conserves.grow hw hfree hwb hb hchunk hfit hapart, ?_,
      h.tails.setBank _ hr hheap list _, ?_⟩, ?_⟩
    · apply h.nodes.grown h.conserves hw hwb hchunk hfit hapart rfl
      intro b'
      rw [setBank_bank]
      split_ifs <;> rfl
    · intro b' c hc
      rw [blocks_append]
      change c ∈ Function.update a.chunks b (a.chunks b ++ [malloc.chunk]) b' at hc
      rw [Function.update_apply] at hc
      split_ifs at hc with hbb
      · rcases List.mem_append.mp hc with hc | hc
        · exact List.mem_append_left _ (hbb ▸ h.chunks b c hc)
        · rw [List.mem_singleton.mp hc, hbb]
          exact List.mem_append_right _ hblock
      · exact List.mem_append_left _ (h.chunks b' c hc)
    · rw [setBank_bank, if_pos rfl]
      exact hchunk
  · cases hstatus
  · cases hstatus

theorem Serving.take (h : Serving w ⟨⟨g, live⟩, log⟩ a)
    (havailable : (g.bank (size + 1)).available ≠ 0) :
    ∃ n a', (handOut w g (size + 1) (size + 1)).1 = n + 1 ∧
      Serving w ⟨⟨(handOut w g (size + 1) (size + 1)).2, ⟨n + 1, size⟩ :: live⟩, log⟩ a' := by
  obtain ⟨ns, hfree, -⟩ := (h.nodes.free (size + 1)).head havailable
  obtain ⟨hptr, hnodes⟩ := h.nodes.take h.conserves hfree
  refine ⟨_, _, hptr, ?_, h.conserves.take hfree, hnodes, h.tails.setAvailable _ _ _,
    h.chunks⟩
  exact congrArg (List.cons _) h.live

theorem Serving.keepNodes (h : Serving w ⟨⟨g, live⟩, log⟩ a) (hmem : g'.mem = g.mem)
    (havailable : ∀ b, (g'.bank b).available = (g.bank b).available) (htails : TailsLive g')
    (log' : PoolLog) : Serving w ⟨⟨g', live⟩, log ++ log'⟩ a := by
  refine ⟨h.live, h.conserves, ⟨?_, ?_⟩, htails, h.chunks_append log'⟩
  · intro b
    dsimp only
    rw [havailable, hmem]
    exact h.nodes.free b
  · intro block hblock
    dsimp only
    rw [hmem]
    exact h.nodes.header block hblock

/-- A call with a size that has a bank of its own hands out a node, or nothing. -/
theorem Serving.alloc (h : Serving w ⟨⟨g, live⟩, log⟩ a) (hw : 4 ≤ w) (hsize : w ≤ size + 1)
    (hmax : size + 1 < maxMemAllocatableSize)
    (hfresh : MallocFresh (256 ^ w) (log ++ memAllocLog w g size malloc)) {p : ℕ}
    (halloc : memAlloc w g size malloc = some (p, g')) :
    p = 0 ∧ Serving w ⟨⟨g', live⟩, log ++ memAllocLog w g size malloc⟩ a ∨
      ∃ n a', p = n + 1 ∧
        Serving w ⟨⟨g', ⟨n + 1, size⟩ :: live⟩, log ++ memAllocLog w g size malloc⟩ a' := by
  have hheaded := headedSize_eq (by omega : 0 < w) hmax
  have hindex := bankIndex_eq (le_trans hw hsize)
  have hsmall : headedSize w size < maxMemAllocatableSize := by rwa [hheaded]
  rw [memAllocLog_small hsmall, hheaded, hindex] at hfresh ⊢
  by_cases hnone : (g.bank (size + 1)).available = 0
  · rw [if_pos hnone] at hfresh ⊢
    have hready : (g.bank (bankIndex (headedSize w size))).available = 0 := by
      rwa [hheaded, hindex]
    cases hadd : memAddBank w g (size + 1) malloc with
    | none =>
      rw [memAlloc_stuck hsmall hready (by rwa [hheaded, hindex])] at halloc
      cases halloc
    | some answer =>
      obtain ⟨status, g₁⟩ := answer
      by_cases hstatus : status = .ok
      · rw [memAlloc_eq hw hsize hmax (.inr ⟨hnone, hstatus ▸ hadd⟩)] at halloc
        obtain ⟨rfl, rfl⟩ := Prod.mk.inj (Option.some.inj halloc)
        obtain ⟨hgrown, hne⟩ := h.grow (by omega) hsize hmax hnone hfresh (hstatus ▸ hadd)
        exact .inr (hgrown.take hne)
      · rw [memAlloc_refused hsmall hready hstatus (by rwa [hheaded, hindex])] at halloc
        obtain ⟨rfl, rfl⟩ := Prod.mk.inj (Option.some.inj halloc)
        left
        obtain ⟨hmem, havailable⟩ := memAddBank_fails hadd hstatus
        exact ⟨rfl, h.keepNodes hmem havailable (h.tails.addBank hadd) _⟩
  · rw [if_neg hnone, List.append_nil]
    rw [memAlloc_eq hw hsize hmax (.inl ⟨hnone, rfl⟩)] at halloc
    obtain ⟨rfl, rfl⟩ := Prod.mk.inj (Option.some.inj halloc)
    exact .inr (h.take hnone)

theorem Serving.free (h : Serving w ⟨⟨g, live⟩, log⟩ a) {block : MemBlock} (hblock : block ∈ live)
    (hfree : memFree w g block.ptr = some g') :
    Serving w ⟨⟨g', live.erase block⟩, log⟩ (a.give block) := by
  have hmem : block ∈ a.live := h.live ▸ hblock
  rw [h.nodes.free_eq h.conserves hmem] at hfree
  obtain rfl := Option.some.inj hfree
  exact ⟨congrArg (List.erase · block) h.live, h.conserves.give hmem,
    h.nodes.give h.conserves hmem, h.tails.setAvailable _ _ _, h.chunks⟩

theorem Serving.write (h : Serving w ⟨⟨g, live⟩, log⟩ a) {block : MemBlock} (hblock : block ∈ live)
    {offset : ℕ} (hoffset : offset < block.size) (byte : UInt8) :
    Serving w ⟨⟨{ g with mem := Function.update g.mem (block.ptr + offset) byte }, live⟩, log⟩ a :=
  ⟨h.live, h.conserves, h.nodes.write h.conserves (h.live ▸ hblock) hoffset byte, h.tails,
    h.chunks⟩

theorem Serving.step {t t' : PoolTrace} (h : ∃ a, Serving w t a) (hw : 4 ≤ w) {op : PoolOp}
    (hop : t.Behaves w op) (hstep : tracedStep w t op = some t') : ∃ a, Serving w t' a := by
  obtain ⟨a, h⟩ := h
  obtain ⟨⟨g, live⟩, log⟩ := t
  obtain ⟨s, hs, rfl⟩ := Option.map_eq_some_iff.mp hstep
  obtain ⟨hfresh, hop⟩ := hop
  cases op with
  | alloc size malloc =>
    obtain ⟨⟨p, g'⟩, halloc, rfl⟩ := Option.map_eq_some_iff.mp hs
    rcases h.alloc hw hop.1 hop.2 hfresh halloc with ⟨rfl, h'⟩ | ⟨n, a', rfl, h'⟩
    · exact ⟨a, h'⟩
    · exact ⟨a', h'⟩
  | free block =>
    obtain ⟨g', hfree, rfl⟩ := Option.map_eq_some_iff.mp hs
    rw [opLog, List.append_nil]
    exact ⟨_, h.free hop hfree⟩
  | write block offset byte =>
    obtain rfl := Option.some.inj hs
    rw [opLog, List.append_nil]
    exact ⟨a, h.write hop.1 hop.2 byte⟩

theorem Serving.hasRoom {t : PoolTrace} (h : Serving w t a) {block : MemBlock}
    (hblock : block ∈ t.state.live) :
    HasRoom t.log block.ptr (max (block.size + 1) w) (.bank block.bank) := by
  have hnode := h.conserves.live_mem (h.live ▸ hblock)
  obtain ⟨hpos, -, hwide, -⟩ := h.conserves.range _ _ hnode
  obtain ⟨c, hc, hn⟩ := List.mem_flatMap.mp hnode
  obtain ⟨i, hi, heq⟩ := mem_nodesFrom.mp hn
  refine ⟨max_le le_rfl hwide, c, h.chunks _ c hc, i, hi, ?_⟩
  rw [← heq]
  rw [MemBlock.node] at hpos ⊢
  omega

theorem Serving.goesBack {t : PoolTrace} (h : Serving w t a) {block : MemBlock}
    (hblock : block ∈ t.state.live) :
    GoesBack w t.state.pool block.ptr (.bank block.bank) := by
  have hmem : block ∈ a.live := h.live ▸ hblock
  have hbank : 0 < block.bank := Nat.succ_pos block.size
  refine ⟨_, h.nodes.free_eq h.conserves hmem, ?_, ?_, ?_⟩
  · rw [setBank_bank, if_pos rfl]
    rfl
  · exact readWord_writeWord _ _ (h.nodes.available_lt h.conserves hbank)
  · intro b' hb'
    rw [setBank_bank, if_neg hb']

theorem Serving.served {t : PoolTrace} (h : Serving w t a) (hw : 4 ≤ w) (hsize : w ≤ size + 1)
    (hmax : size + 1 < maxMemAllocatableSize) (hfresh : t.Fresh w (.alloc size malloc))
    (hrecord : malloc.record ≠ none) (hchunk : malloc.chunk ≠ 0) : t.Served w size malloc := by
  obtain ⟨⟨g, live⟩, log⟩ := t
  have hheaded := headedSize_eq (by omega : 0 < w) hmax
  have hindex := bankIndex_eq (le_trans hw hsize)
  have hsmall : headedSize w size < maxMemAllocatableSize := by rwa [hheaded]
  have hallocator : allocatorOf w size = .bank (size + 1) := by
    rw [allocatorOf, if_neg (not_lt.mpr hsmall.le), hheaded, hindex]
  obtain ⟨g₁, halloc, -⟩ := h.tails.exists_memAlloc hsmall hrecord hchunk
  constructor
  · rintro b hb
    rw [hallocator] at hb
    obtain rfl := Allocator.bank.inj hb
    exact hmax
  · rw [hallocator]
    refine ⟨_, _, halloc, Nat.succ_ne_zero _, ?_⟩
    rcases h.alloc hw hsize hmax hfresh halloc with ⟨hzero, -⟩ | ⟨n, a', hptr, h'⟩
    · exact (Nat.succ_ne_zero _ hzero).elim
    · rw [hptr]
      exact ⟨h'.hasRoom List.mem_cons_self, h'.goesBack List.mem_cons_self⟩

/-- No bank has nodes that cannot hold a pointer. -/
theorem Serving.available_eq_zero {t : PoolTrace} (h : Serving w t a) {b : ℕ} (hb : b < w) :
    (t.state.pool.bank b).available = 0 := by
  rcases (h.nodes.free b).mem_or with hzero | hmem
  · exact hzero
  · have hwide := (h.conserves.range _ _ (h.conserves.free_mem hmem)).2.2.1
    omega

/-- A node of bank 4 that is marked with a smaller size goes to the bank of that size. -/
theorem Serving.not_goesBack {t : PoolTrace} (h : Serving 4 t a) (hsize : size + 1 < 4)
    {g₁ : MemPool}
    (hsame : ∀ b, b ≠ 4 → (g₁.bank b).available = (t.state.pool.bank b).available) :
    ¬ GoesBack 4 (handOut 4 g₁ 4 (size + 1)).2 (handOut 4 g₁ 4 (size + 1)).1 (.bank 4) := by
  rintro ⟨g', hfree, -, -, hother⟩
  have hmark : ((handOut 4 g₁ 4 (size + 1)).2.mem ((handOut 4 g₁ 4 (size + 1)).1 - 1)).toNat =
      size + 1 := by
    change (Function.update g₁.mem (g₁.bank 4).available (UInt8.ofNat (size + 1))
      (g₁.bank 4).available).toNat = size + 1
    rw [Function.update_self, UInt8.toNat_ofNat']
    omega
  have hne : size + 1 ≠ 4 := hsize.ne
  obtain ⟨hptr, -, rfl⟩ := memFree_cases hfree
  have hbank := congrArg MemBank.available (hother (size + 1) hne)
  rw [setBank_bank, hmark, if_pos rfl] at hbank
  have hzero : ((handOut 4 g₁ 4 (size + 1)).2.bank (size + 1)).available = 0 := by
    rw [handOut, setBank_bank, if_neg hne]
    exact (hsame _ hne).trans (h.available_eq_zero hsize)
  rw [hzero] at hbank
  dsimp only at hbank
  omega

end Serving

theorem PoolTrace.Served.size_lt {w : ℕ} (hw : w = 4 ∨ w = 8) {t : PoolTrace} {a : Arena}
    (h : Serving w t a) {size : ℕ} (hsize : size < 256 ^ w) {malloc : PoolMallocs}
    (hrecord : malloc.record ≠ none) (hchunk : malloc.chunk ≠ 0)
    (hserved : t.Served w size malloc) : w ≤ size + 1 ∧ size + 1 < maxMemAllocatableSize := by
  obtain ⟨hinside, p, g', halloc, hp, hroom, hback⟩ := hserved
  rcases lt_trichotomy (headedSize w size) maxMemAllocatableSize with hsmall | heq | hlarge
  · have hallocator : allocatorOf w size = .bank (bankIndex (headedSize w size)) := by
      rw [allocatorOf, if_neg (not_lt.mpr hsmall.le)]
    rw [hallocator] at hroom hback
    obtain ⟨hbytes, hwide⟩ := max_le_iff.mp hroom.1
    have hheaded : headedSize w size = size + 1 := by
      apply Nat.mod_eq_of_lt
      by_contra hwrap
      have heq : size + 1 = 256 ^ w := le_antisymm hsize (not_lt.mp hwrap)
      have hzero : headedSize w size = 0 := by rw [headedSize, heq, Nat.mod_self]
      rw [hzero, heq] at hbytes
      have hpow : 256 ^ 1 ≤ 256 ^ w := Nat.pow_le_pow_right (by decide) (by omega)
      exact absurd (hpow.trans hbytes) (by decide)
    rw [hheaded] at hsmall
    refine ⟨?_, hsmall⟩
    by_contra hshort
    -- only the smallest sizes for four-byte pointers get a node that is wide enough
    have hindex : bankIndex (headedSize w size) = 4 := by
      rw [hheaded, bankIndex] at hwide ⊢
      split_ifs at hwide ⊢ <;> omega
    obtain rfl : w = 4 := by omega
    obtain ⟨g₁, halloc₁, hsame⟩ :=
      h.tails.exists_memAlloc (w := 4) (by rwa [hheaded]) hrecord hchunk
    rw [hindex] at halloc₁ hsame hback
    rw [hheaded] at halloc₁
    rw [halloc₁] at halloc
    obtain ⟨rfl, rfl⟩ := Prod.mk.inj (Option.some.inj halloc)
    exact h.not_goesBack (not_le.mp hshort) hsame hback
  · have hallocator : allocatorOf w size = .bank maxMemAllocatableSize := by
      rw [allocatorOf, if_neg (not_lt.mpr heq.le), heq]
      rfl
    exact (lt_irrefl _ (hinside _ hallocator)).elim
  · have hallocator : allocatorOf w size = .system := if_pos hlarge
    rw [hallocator] at hback
    -- the block gets into the bank that the byte before it names
    obtain ⟨g'', hfree, hnone⟩ := hback
    obtain ⟨-, -, rfl⟩ := memFree_cases hfree
    refine (hnone (g'.mem (p - 1)).toNat ?_).elim
    rw [setBank_bank, if_pos rfl]

/-- In every state that calls with banks of their own lead to, whatever `malloc` refused on the way:
a request that `malloc` has memory for is served exactly if its size has a bank of its own. -/
theorem pool_run_served_iff (w : ℕ) (hw : w = 4 ∨ w = 8) (mem : Memory) (ops : List PoolOp)
    (hops : Along (tracedStep w) (PoolTrace.Behaves w) (PoolTrace.start mem) ops) (t : PoolTrace)
    (ht : runFrom (tracedStep w) (PoolTrace.start mem) ops = some t) (size : ℕ)
    (hsize : size < 256 ^ w) (malloc : PoolMallocs) (hfresh : t.Fresh w (.alloc size malloc))
    (hrecord : malloc.record ≠ none) (hchunk : malloc.chunk ≠ 0) :
    t.Served w size malloc ↔ w ≤ size + 1 ∧ size + 1 < maxMemAllocatableSize := by
  have hwide : 4 ≤ w := by omega
  have hkeep : ∀ (t : PoolTrace) op t', (∃ a, Serving w t a) → t.Behaves w op →
      tracedStep w t op = some t' → ∃ a, Serving w t' a :=
    fun t op t' h hop hstep => Serving.step h hwide hop hstep
  obtain ⟨a, h⟩ := runFrom_invariant hkeep ⟨_, serving_start w mem⟩ hops ht
  constructor
  · intro hserved
    exact hserved.size_lt hw h hsize hrecord hchunk
  · rintro ⟨hle, hmax⟩
    exact h.served hwide hle hmax hfresh hrecord hchunk

/-- A request that was refused is served when there is memory. -/
theorem pool_run_served_iff_example :
    ∃ t, runFrom (tracedStep 8) (PoolTrace.start fun _ => 0) [.alloc 20 ⟨none, 0, 0⟩] = some t ∧
      t.Served 8 20 ⟨some (2000, ⟨none, none, 0⟩), 1000, 0⟩ := by
  have hfresh : (PoolTrace.start fun _ => 0).Behaves 8 (.alloc 20 ⟨none, 0, 0⟩) := by
    refine ⟨⟨?_, List.Pairwise.nil⟩, by decide, by decide⟩
    intro block hblock
    cases hblock
  have hops : Along (tracedStep 8) (PoolTrace.Behaves 8) (PoolTrace.start fun _ => 0)
      [.alloc 20 ⟨none, 0, 0⟩] := ⟨hfresh, fun _ _ => trivial⟩
  refine ⟨_, rfl, ?_⟩
  apply (pool_run_served_iff 8 (.inr rfl) _ _ hops _ rfl 20 (by decide) _ _ (by simp)
    (by decide)).mpr
  · exact ⟨by decide, by decide⟩
  · constructor <;> decide

/-- The largest size for the pool takes a bank behind the last one. -/
theorem not_served :
    (PoolTrace.start fun _ => 0).Fresh 4 (.alloc 127 ⟨some (2000, ⟨none, none, 0⟩), 4000, 9000⟩) ∧
      ¬ (PoolTrace.start fun _ => 0).Served 4 127
        ⟨some (2000, ⟨none, none, 0⟩), 4000, 9000⟩ := by
  constructor
  · refine ⟨?_, List.Pairwise.nil⟩
    intro block hblock
    cases hblock
  · intro h
    exact absurd (h.inside 128 rfl) (by decide)

end MorningProjects.Pool
