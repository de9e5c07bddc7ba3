import MorningProjects.Pool.Arena

/-!
# The pool represents an arena

The free nodes of a bank are chained through their first bytes, the chunks hang on
linked records, and every live block has its size in front. Growing a bank, taking a
node, giving it back and writing to a live block take a pool that represents an arena
to one that represents the next.
-/
namespace MorningProjects.Pool
open Library

structure Represents (w : ℕ) (g : MemPool) (a : Arena) (records : ℕ → List ℕ) : Prop where
  segment : ∀ b, Segment g.chunk none (records b) none
  nodup : ∀ b, (records b).Nodup
  apart : ∀ b b', b ≠ b' → ∀ r ∈ records b, r ∉ records b'
  chunkList : ∀ b, (g.bank b).chunkList = (records b).head?
  chunkTail : ∀ b, (g.bank b).chunkTail = (records b).getLast?
  chunks : ∀ b, (records b).map (fun r => readData g.chunk (some r)) = (a.chunks b).map some
  free : ∀ b, Chain (fun n => readWord g.mem n w) 0 (g.bank b).available (a.free b)
  header : ∀ block ∈ a.live, g.mem block.node = UInt8.ofNat block.bank

/-- The records of every bank are linked in both directions and no two banks share one. -/
structure KeepsRecords (g : MemPool) (records : ℕ → List ℕ) : Prop where
  segment : ∀ b, Segment g.chunk none (records b) none
  nodup : ∀ b, (records b).Nodup
  apart : ∀ b b', b ≠ b' → ∀ r ∈ records b, r ∉ records b'
  chunkList : ∀ b, (g.bank b).chunkList = (records b).head?
  chunkTail : ∀ b, (g.bank b).chunkTail = (records b).getLast?

structure HoldsNodes (w : ℕ) (g : MemPool) (a : Arena) : Prop where
  free : ∀ b, Chain (fun n => readWord g.mem n w) 0 (g.bank b).available (a.free b)
  header : ∀ block ∈ a.live, g.mem block.node = UInt8.ofNat block.bank

section Parts

variable {w : ℕ} {g : MemPool} {a : Arena} {records : ℕ → List ℕ}

theorem Represents.keepsRecords (h : Represents w g a records) : KeepsRecords g records :=
  ⟨h.segment, h.nodup, h.apart, h.chunkList, h.chunkTail⟩

theorem Represents.holdsNodes (h : Represents w g a records) : HoldsNodes w g a :=
  ⟨h.free, h.header⟩

theorem KeepsRecords.represents (h : KeepsRecords g records) (hnodes : HoldsNodes w g a)
    (hchunks : ∀ b, (records b).map (fun r => readData g.chunk (some r)) =
      (a.chunks b).map some) : Represents w g a records :=
  ⟨h.segment, h.nodup, h.apart, h.chunkList, h.chunkTail, hchunks, hnodes.free, hnodes.header⟩

theorem keepsRecords_init {g : MemPool} (hbank : g.bank = fun _ => ⟨none, none, 0⟩) :
    KeepsRecords g fun _ => [] := by
  constructor
  · intro b
    trivial
  · intro b
    exact List.nodup_nil
  · intro b b' _ r hr
    cases hr
  · intro b
    rw [hbank]
    rfl
  · intro b
    rw [hbank]
    rfl

theorem holdsNodes_init (w : ℕ) {g : MemPool} (hbank : g.bank = fun _ => ⟨none, none, 0⟩) :
    HoldsNodes w g Arena.init := by
  constructor
  · intro b
    rw [hbank]
    rfl
  · intro block hblock
    cases hblock

theorem represents_init (w : ℕ) (g : MemPool) :
    Represents w (memPoolInit g) Arena.init fun _ => [] :=
  (keepsRecords_init rfl).represents (holdsNodes_init w rfl) fun _ => rfl

end Parts

section Records

variable {w : ℕ} {g : MemPool} {records : ℕ → List ℕ}

theorem KeepsRecords.not_mem (h : KeepsRecords g records) {r : ℕ} (hr : g.chunk r = none) (b : ℕ) :
    r ∉ records b := by
  intro hmem
  have hsome := (h.segment b).nextChain.isSome hmem
  rw [hr] at hsome
  cases hsome

theorem KeepsRecords.congr (h : KeepsRecords g records) {g' : MemPool} (hchunk : g'.chunk = g.chunk)
    (hlist : ∀ b, (g'.bank b).chunkList = (g.bank b).chunkList)
    (htail : ∀ b, (g'.bank b).chunkTail = (g.bank b).chunkTail) : KeepsRecords g' records := by
  refine ⟨?_, h.nodup, h.apart, ?_, ?_⟩
  · rw [hchunk]
    exact h.segment
  · intro b
    exact (hlist b).trans (h.chunkList b)
  · intro b
    exact (htail b).trans (h.chunkTail b)

theorem KeepsRecords.setAvailable (h : KeepsRecords g records) (mem : Memory) (index node : ℕ) :
    KeepsRecords ({ g with mem := mem }.setBank index { g.bank index with available := node })
      records :=
  h.congr rfl (fun b => setBank_available_chunkList g index node b)
    (fun b => setBank_available_chunkTail g index node b)

theorem mem_update_concat {r b b' x : ℕ} :
    x ∈ Function.update records b (records b ++ [r]) b' ↔ x ∈ records b' ∨ b' = b ∧ x = r := by
  rw [Function.update_apply]
  by_cases hb : b' = b
  · rw [if_pos hb, List.mem_append, List.mem_singleton, hb]
    simp
  · rw [if_neg hb]
    simp [hb]

theorem KeepsRecords.apart_concat (h : KeepsRecords g records) {r : ℕ} (hr : g.chunk r = none)
    (b b₁ b₂ : ℕ) (hne : b₁ ≠ b₂) :
    ∀ x ∈ Function.update records b (records b ++ [r]) b₁,
      x ∉ Function.update records b (records b ++ [r]) b₂ := by
  intro x hx₁ hx₂
  rw [mem_update_concat] at hx₁ hx₂
  rcases hx₁ with hx₁ | ⟨rfl, rfl⟩
  · rcases hx₂ with hx₂ | ⟨-, rfl⟩
    · exact h.apart b₁ b₂ hne x hx₁ hx₂
    · exact h.not_mem hr b₁ hx₁
  · rcases hx₂ with hx₂ | ⟨hb, -⟩
    · exact h.not_mem hr b₂ hx₂
    · exact hne hb.symm

structure RecordAdded (heap heap' : LinkHeap ℕ ℕ) (rs : List ℕ) (r c : ℕ) : Prop where
  new : heap' r = some ⟨rs.getLast?, none, c⟩
  last : NextLast heap heap' rs (some r)
  other : ∀ x, x ≠ r → x ∉ rs → heap' x = heap x

/-- A record is linked in behind the others of a bank. -/
theorem KeepsRecords.grown (h : KeepsRecords g records) {b r c available : ℕ} {mem : Memory}
    (hr : g.chunk r = none) {chunk : LinkHeap ℕ ℕ}
    (hadd : RecordAdded g.chunk chunk (records b) r c) :
    KeepsRecords
      ({ g with chunk := chunk, mem := mem }.setBank b
        ⟨some r, (records b ++ [r]).head?, available⟩)
      (Function.update records b (records b ++ [r])) := by
  have hrecords : ∀ b', Function.update records b (records b ++ [r]) b' =
      if b' = b then records b ++ [r] else records b' := Function.update_apply records b _
  constructor
  · intro b'
    rw [hrecords]
    by_cases hb : b' = b
    · rw [if_pos hb]
      have hsegment := h.segment b
      have hnodup := h.nodup b
      rw [← List.append_nil (records b)] at hsegment hnodup
      apply hsegment.link hnodup _ hadd.last
      · intro x hx
        cases hx
      · exact ⟨c, by simpa using hadd.new⟩
    · rw [if_neg hb]
      apply (h.segment b').congr
      intro x hx
      apply hadd.other x
      · rintro rfl
        exact h.not_mem hr b' hx
      · exact h.apart b' b hb x hx
  · intro b'
    rw [hrecords]
    by_cases hb : b' = b
    · rw [if_pos hb, List.nodup_append]
      refine ⟨h.nodup b, List.nodup_singleton r, ?_⟩
      rintro x hx y hy rfl
      exact h.not_mem hr b (List.mem_singleton.mp hy ▸ hx)
    · rw [if_neg hb]
      exact h.nodup b'
  · exact h.apart_concat hr b
  · intro b'
    rw [hrecords, setBank_bank]
    by_cases hb : b' = b
    · rw [if_pos hb, if_pos hb]
    · rw [if_neg hb, if_neg hb]
      exact h.chunkList b'
  · intro b'
    rw [hrecords, setBank_bank]
    by_cases hb : b' = b
    · rw [if_pos hb, if_pos hb, List.getLast?_concat]
    · rw [if_neg hb, if_neg hb]
      exact h.chunkTail b'

/-- With memory for both a bank gets a record and a chunk, on either path. -/
theorem KeepsRecords.addBank (h : KeepsRecords g records) (w b : ℕ) {malloc : PoolMallocs} {r : ℕ}
    {old : LinkNode ℕ ℕ} (hrecord : malloc.record = some (r, old)) (hr : g.chunk r = none)
    (hchunk : malloc.chunk ≠ 0) :
    ∃ chunk, RecordAdded g.chunk chunk (records b) r malloc.chunk ∧
      memAddBank w g b malloc = some (.ok,
        { g with chunk := chunk, mem := memListFormat w g.mem malloc.chunk b }.setBank b
          ⟨some r, (records b ++ [r]).head?, malloc.chunk⟩) := by
  have hne : ∀ x ∈ records b, x ≠ r := by
    rintro x hx rfl
    exact h.not_mem hr b hx
  by_cases hnil : records b = []
  · refine ⟨Function.update g.chunk r (some ⟨none, none, malloc.chunk⟩), ⟨?_, ?_, ?_⟩, ?_⟩
    · rw [Function.update_self, hnil]
      rfl
    · intro x hx
      rw [hnil] at hx
      cases hx
    · intro x hx _
      exact Function.update_of_ne hx ..
    · rw [memAddBank, h.chunkList, hnil, List.head?_nil]
      dsimp only
      rw [memBankInit, hrecord]
      dsimp only
      rw [if_neg hchunk]
      rfl
  · have hfirst := List.head?_eq_some_head hnil
    have hlast := List.getLast?_eq_some_getLast hnil
    generalize (records b).head hnil = first at hfirst
    generalize (records b).getLast hnil = last at hlast
    have hmem : last ∈ records b := List.mem_of_getLast? hlast
    have hhead : (records b ++ [r]).head? = some first := by
      rw [List.head?_append, hfirst]
      rfl
    refine ⟨setNext (Function.update g.chunk r (some ⟨some last, none, malloc.chunk⟩)) (some last)
      (some r), ⟨?_, ?_, ?_⟩, ?_⟩
    · rw [setNext_of_ne (fun heq => hne last hmem (Option.some.inj heq)), Function.update_self,
        hlast]
    · intro x hx
      rw [setNext, Function.update_of_ne (hne x hx), hlast]
    · intro x hx hout
      rw [setNext_of_ne, Function.update_of_ne hx]
      intro heq
      exact hout (Option.some.inj heq ▸ hmem)
    · have hsome :
          (Function.update g.chunk r (some ⟨some last, none, malloc.chunk⟩) last).isSome := by
        rw [Function.update_of_ne (hne last hmem)]
        exact (h.segment b).nextChain.isSome hmem
      rw [memAddBank, h.chunkList, h.chunkTail, hfirst, hlast, hrecord, hhead]
      dsimp only
      rw [Option.bind_some, if_neg hchunk, writeNext_eq hsome]
      rfl

end Records

section Nodes

variable {w : ℕ} {g : MemPool} {a : Arena}

/-- Only free nodes and headers are read: memory may change elsewhere. -/
theorem HoldsNodes.setMem (h : HoldsNodes w g a) {mem : Memory}
    (hfree : ∀ b, ∀ n ∈ a.free b, AgreeOn g.mem mem n w)
    (hheader : ∀ block ∈ a.live, mem block.node = g.mem block.node) :
    HoldsNodes w { g with mem := mem } a := by
  constructor
  · intro b
    apply (h.free b).congr
    intro n hn
    exact readWord_congr (hfree b n hn)
  · intro block hblock
    exact (hheader block hblock).trans (h.header block hblock)

/-- The chunk that a bank gets is formatted, apart from all nodes there are. -/
theorem HoldsNodes.grown (h : HoldsNodes w g a) (hcons : a.Conserves w) (hw : 0 < w)
    {b c : ℕ} (hwb : w ≤ b) (hc : c ≠ 0) (hfit : c + numMemNodesPerBank * b ≤ 256 ^ w)
    (hapart : ∀ b', ∀ n' ∈ a.nodes b', c + numMemNodesPerBank * b ≤ n' ∨ n' + b' ≤ c)
    {g' : MemPool} (hmem : g'.mem = memListFormat w g.mem c b)
    (havailable : ∀ b', (g'.bank b').available = if b' = b then c else (g.bank b').available) :
    HoldsNodes w g' (a.grow b c) := by
  obtain ⟨hchain, hoff⟩ := memListFormat_chain hw hwb g.mem hc hfit
  constructor
  · intro b'
    rw [havailable, hmem]
    change Chain (fun n => readWord (memListFormat w g.mem c b) n w) 0 _
      (Function.update a.free b _ b')
    rw [Function.update_apply]
    by_cases hb : b' = b
    · rw [if_pos hb, if_pos hb]
      exact hchain
    · rw [if_neg hb, if_neg hb]
      apply (h.free b').congr
      intro n hn
      have hnode := hcons.free_mem hn
      have hwide := (hcons.range b' n hnode).2.2.1
      exact readWord_congr ((hoff.agreeOn (hapart b' n hnode)).mono hwide)
  · intro block hblock
    have hnode := hcons.live_mem hblock
    have hwide := (hcons.range _ _ hnode).2.2.1
    have hkeep := hoff.agreeOn (hapart _ _ hnode) block.node le_rfl (by omega)
    rw [hmem, hkeep]
    exact h.header block hblock

/-- The first free node of a bank is taken out and gets its header. -/
theorem HoldsNodes.take (h : HoldsNodes w g a) (hcons : a.Conserves w) {size n : ℕ}
    {ns : List ℕ} (hfree : a.free (size + 1) = n :: ns) :
    (handOut w g (size + 1) (size + 1)).1 = n + 1 ∧
      HoldsNodes w (handOut w g (size + 1) (size + 1)).2 (a.take size n ns) := by
  have hchain := h.free (size + 1)
  rw [hfree] at hchain
  obtain ⟨havailable, -, hrest⟩ := hchain
  have hn : n ∈ a.free (size + 1) := hfree ▸ List.mem_cons_self
  have hnode := hcons.free_mem hn
  have hpos := (hcons.range _ n hnode).2.2.1
  have hoff : AgreeOff g.mem (Function.update g.mem n (UInt8.ofNat (size + 1))) n (size + 1) :=
    (agreeOff_update g.mem n _).mono le_rfl (by omega)
  -- the other free nodes are not touched
  have hkeep : ∀ b m, m ∈ a.free b → ¬ (size + 1 = b ∧ n = m) →
      AgreeOn g.mem (Function.update g.mem n (UInt8.ofNat (size + 1))) m w := by
    intro b m hm hne
    have hmnode := hcons.free_mem hm
    exact (hcons.agreeOn hnode hmnode hne hoff).mono (hcons.range b m hmnode).2.2.1
  rw [handOut, havailable]
  refine ⟨rfl, ?_, ?_⟩
  · intro b
    rw [setBank_bank]
    change Chain (fun m => readWord (Function.update g.mem n (UInt8.ofNat (size + 1))) m w) 0 _
      (Function.update a.free (size + 1) ns b)
    rw [Function.update_apply]
    by_cases hb : b = size + 1
    · rw [if_pos hb, if_pos hb]
      apply hrest.congr
      intro m hm
      apply readWord_congr
      apply hkeep (size + 1) m (hfree ▸ List.mem_cons_of_mem n hm)
      rintro ⟨-, rfl⟩
      have hnodup := (List.nodup_append.mp (hcons.nodup_append (size + 1))).1
      rw [hfree] at hnodup
      exact (List.nodup_cons.mp hnodup).1 hm
    · rw [if_neg hb, if_neg hb]
      apply (h.free b).congr
      intro m hm
      apply readWord_congr
      apply hkeep b m hm
      exact fun heq => hb heq.1.symm
  · intro block hblock
    change Function.update g.mem n (UInt8.ofNat (size + 1)) block.node = _
    rcases List.mem_cons.mp hblock with rfl | hblock
    · exact Function.update_self ..
    · have hside := hcons.agreeOn hnode (hcons.live_mem hblock) (hcons.free_ne_live hn hblock) hoff
      rw [hside block.node le_rfl (by rw [MemBlock.bank]; omega)]
      exact h.header block hblock

theorem HoldsNodes.free_eq (h : HoldsNodes w g a) (hcons : a.Conserves w) {block : MemBlock}
    (hblock : block ∈ a.live) :
    memFree w g block.ptr =
      some ({ g with mem := writeWord g.mem block.node w (g.bank block.bank).available }.setBank
        block.bank { g.bank block.bank with available := block.node }) := by
  have hnode := hcons.live_mem hblock
  obtain ⟨hpos, -, -, hbank⟩ := hcons.range _ _ hnode
  have hptr : ¬ block.ptr ≤ 1 := by
    rw [MemBlock.node] at hpos
    omega
  have hindex : (g.mem (block.ptr - 1)).toNat = block.bank := by
    change (g.mem block.node).toNat = block.bank
    rw [h.header block hblock, UInt8.toNat_ofNat']
    apply Nat.mod_eq_of_lt
    exact lt_trans hbank (by decide)
  rw [memFree, if_neg hptr]
  dsimp only
  rw [hindex, if_neg (by omega)]
  rfl

theorem HoldsNodes.available_lt (h : HoldsNodes w g a) (hcons : a.Conserves w) {b : ℕ}
    (hb : 0 < b) : (g.bank b).available < 256 ^ w := by
  rcases (h.free b).mem_or with hzero | hmem
  · rw [hzero]
    exact Nat.pow_pos (by decide)
  · obtain ⟨-, hfit, -, -⟩ := hcons.range _ _ (hcons.free_mem hmem)
    omega

theorem HoldsNodes.give (h : HoldsNodes w g a) (hcons : a.Conserves w) {block : MemBlock}
    (hblock : block ∈ a.live) :
    HoldsNodes w
      ({ g with mem := writeWord g.mem block.node w (g.bank block.bank).available }.setBank
        block.bank { g.bank block.bank with available := block.node })
      (a.give block) := by
  have hnode := hcons.live_mem hblock
  obtain ⟨hpos, -, hwide, -⟩ := hcons.range _ _ hnode
  have hbank : 0 < block.bank := Nat.succ_pos block.size
  have hword := h.available_lt hcons hbank
  have hoff : AgreeOff g.mem (writeWord g.mem block.node w (g.bank block.bank).available)
      block.node block.bank := (agreeOff_writeWord g.mem block.node w _).mono le_rfl (by omega)
  have hfree : ∀ b, Chain (fun m => readWord
      (writeWord g.mem block.node w (g.bank block.bank).available) m w) 0 (g.bank b).available
      (a.free b) := by
    intro b
    apply (h.free b).congr
    intro m hm
    have hmnode := hcons.free_mem hm
    apply readWord_congr
    apply AgreeOn.mono _ (hcons.range b m hmnode).2.2.1
    apply hcons.agreeOn hnode hmnode _ hoff
    rintro ⟨hb, hm'⟩
    exact hcons.free_ne_live hm hblock ⟨hb.symm, hm'.symm⟩
  constructor
  · intro b
    rw [setBank_bank]
    change Chain (fun m => readWord
      (writeWord g.mem block.node w (g.bank block.bank).available) m w) 0 _
      (Function.update a.free block.bank (block.node :: a.free block.bank) b)
    rw [Function.update_apply]
    by_cases hb : b = block.bank
    · rw [if_pos hb, if_pos hb]
      refine ⟨rfl, by omega, ?_⟩
      dsimp only
      rw [readWord_writeWord g.mem block.node hword]
      exact hfree block.bank
    · rw [if_neg hb, if_neg hb]
      exact hfree b
  · intro other hother
    have hmem : other ∈ a.live := List.mem_of_mem_erase hother
    have hne := hcons.live_ne_erase hblock hother
    have hside := hcons.agreeOn hnode (hcons.live_mem hmem) hne hoff
    have hkeep := hside other.node le_rfl (by rw [MemBlock.bank]; omega)
    exact hkeep.trans (h.header other hmem)

/-- A byte of a live block reaches neither its header nor another node. -/
theorem HoldsNodes.write (h : HoldsNodes w g a) (hcons : a.Conserves w) {block : MemBlock}
    (hblock : block ∈ a.live) {offset : ℕ} (hoffset : offset < block.size) (byte : UInt8) :
    HoldsNodes w { g with mem := Function.update g.mem (block.ptr + offset) byte } a := by
  have hnode := hcons.live_mem hblock
  obtain ⟨hpos, -, -, -⟩ := hcons.range _ _ hnode
  have hptr : block.ptr = block.node + 1 := by
    rw [MemBlock.node] at hpos ⊢
    omega
  have hoff : AgreeOff g.mem (Function.update g.mem (block.ptr + offset) byte)
      block.node block.bank := by
    apply (agreeOff_update g.mem (block.ptr + offset) byte).mono
    · omega
    · rw [MemBlock.bank]
      omega
  apply h.setMem
  · intro b n hn
    have hfree := hcons.free_mem hn
    apply AgreeOn.mono _ (hcons.range b n hfree).2.2.1
    apply hcons.agreeOn hnode hfree _ hoff
    rintro ⟨hb, hn'⟩
    exact hcons.free_ne_live hn hblock ⟨hb.symm, hn'.symm⟩
  · intro other hother
    by_cases heq : block.bank = other.bank ∧ block.node = other.node
    · rw [← heq.2, Function.update_of_ne]
      omega
    · exact hcons.agreeOn hnode (hcons.live_mem hother) heq hoff other.node le_rfl
        (by rw [MemBlock.bank]; omega)

end Nodes

section Steps

variable {w : ℕ} {g : MemPool} {a : Arena} {records : ℕ → List ℕ}

/-- Fresh memory for a bank: a record nobody has, and a chunk that lies apart from the
chunks of every bank, inside the address space. -/
structure FreshFor (w : ℕ) (g : MemPool) (a : Arena) (b : ℕ) (malloc : PoolMallocs) : Prop where
  record : ∃ r old, malloc.record = some (r, old) ∧ g.chunk r = none
  chunk : malloc.chunk ≠ 0
  fits : malloc.chunk + numMemNodesPerBank * b ≤ 256 ^ w
  apart : ∀ b', ∀ c ∈ a.chunks b',
    malloc.chunk + numMemNodesPerBank * b ≤ c ∨ c + numMemNodesPerBank * b' ≤ malloc.chunk

theorem apart_nodes {b c : ℕ}
    (h : ∀ b', ∀ c' ∈ a.chunks b',
      c + numMemNodesPerBank * b ≤ c' ∨ c' + numMemNodesPerBank * b' ≤ c)
    (b' n' : ℕ) (hn' : n' ∈ a.nodes b') : c + numMemNodesPerBank * b ≤ n' ∨ n' + b' ≤ c := by
  obtain ⟨c', hc, hn⟩ := List.mem_flatMap.mp hn'
  have hinside := nodesFrom_inside hn
  have hside := h b' c' hc
  omega

theorem Represents.addBank (h : Represents w g a records) (hcons : a.Conserves w) (hw : 0 < w)
    {b : ℕ} (hwb : w ≤ b) {malloc : PoolMallocs} (hfresh : FreshFor w g a b malloc) :
    ∃ g' r, memAddBank w g b malloc = some (.ok, g') ∧
      Represents w g' (a.grow b malloc.chunk) (Function.update records b (records b ++ [r])) := by
  obtain ⟨r, old, hrecord, hr⟩ := hfresh.record
  obtain ⟨chunk, hadded, hadd⟩ := h.keepsRecords.addBank w b hrecord hr hfresh.chunk
  refine ⟨_, r, hadd, (h.keepsRecords.grown hr hadded).represents ?_ ?_⟩
  · apply h.holdsNodes.grown hcons hw hwb hfresh.chunk hfresh.fits (apart_nodes hfresh.apart) rfl
    intro b'
    rw [setBank_bank]
    split_ifs <;> rfl
  · intro b'
    change _ = (Function.update a.chunks b (a.chunks b ++ [malloc.chunk]) b').map some
    rw [Function.update_apply, Function.update_apply]
    by_cases hb : b' = b
    · rw [if_pos hb, if_pos hb, List.map_append, List.map_append, ← h.chunks b]
      congr 1
      · apply List.map_congr_left
        intro x hx
        exact hadded.last.readData hx
      · exact congrArg (fun o => [o]) (readData_eq hadded.new)
    · rw [if_neg hb, if_neg hb, ← h.chunks b']
      apply List.map_congr_left
      intro x hx
      apply readData_congr
      apply hadded.other x
      · rintro rfl
        exact h.keepsRecords.not_mem hr b' hx
      · exact h.apart b' b hb x hx

theorem Represents.take (h : Represents w g a records) (hcons : a.Conserves w) {size n : ℕ}
    {ns : List ℕ} (hfree : a.free (size + 1) = n :: ns) :
    (handOut w g (size + 1) (size + 1)).1 = n + 1 ∧
      Represents w (handOut w g (size + 1) (size + 1)).2 (a.take size n ns) records := by
  obtain ⟨hptr, hnodes⟩ := h.holdsNodes.take hcons hfree
  exact ⟨hptr, (h.keepsRecords.setAvailable ..).represents hnodes h.chunks⟩

theorem Represents.give (h : Represents w g a records) (hcons : a.Conserves w) {block : MemBlock}
    (hblock : block ∈ a.live) :
    Represents w
      ({ g with mem := writeWord g.mem block.node w (g.bank block.bank).available }.setBank
        block.bank { g.bank block.bank with available := block.node })
      (a.give block) records :=
  (h.keepsRecords.setAvailable ..).represents (h.holdsNodes.give hcons hblock) h.chunks

theorem Represents.write (h : Represents w g a records) (hcons : a.Conserves w) {block : MemBlock}
    (hblock : block ∈ a.live) {offset : ℕ} (hoffset : offset < block.size) (byte : UInt8) :
    Represents w { g with mem := Function.update g.mem (block.ptr + offset) byte } a records := by
  have hrecords : KeepsRecords
      { g with mem := Function.update g.mem (block.ptr + offset) byte } records :=
    h.keepsRecords.congr rfl (fun _ => rfl) fun _ => rfl
  exact hrecords.represents (h.holdsNodes.write hcons hblock hoffset byte) h.chunks

end Steps

end MorningProjects.Pool
