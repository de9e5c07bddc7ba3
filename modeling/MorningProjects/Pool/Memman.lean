import MorningProjects.Common.Status
import MorningProjects.Library.ByteMemory
import MorningProjects.Library.Linked

/-!
# The memory pool

The nodes of a bank lie in chunks of ten. A free node holds the address of the
next free one in its first `w` bytes, the width of a pointer; a node handed out
holds its size in the first byte. Address 0 is NULL. The records of the chunks are
kept apart from the byte memory. A call without a result writes through NULL or
leaves `mem_banks`.
-/
namespace MorningProjects.Pool
open Library

def maxMemAllocatableSize : ℕ := 128
def numMemNodesPerBank : ℕ := 10

structure MemBank where
  chunkTail : Option ℕ
  chunkList : Option ℕ
  available : ℕ
  deriving DecidableEq, Repr

/-- The memory, the chunk records by address, each with the address of its chunk as data,
and `g_mem_pool`. -/
structure MemPool where
  mem : Memory
  chunk : LinkHeap ℕ ℕ
  bank : ℕ → MemBank

/-- The answers of `malloc` to a call of `mem_alloc`: a chunk record and what it happens to
hold, a chunk, or a large block. -/
structure PoolMallocs where
  record : Option (ℕ × LinkNode ℕ ℕ)
  chunk : ℕ
  large : ℕ

def memPoolInit (g : MemPool) : MemPool := { g with bank := fun _ => ⟨none, none, 0⟩ }

def MemPool.setBank (g : MemPool) (index : ℕ) (bank : MemBank) : MemPool :=
  { g with bank := Function.update g.bank index bank }

theorem setBank_bank (g : MemPool) (index : ℕ) (bank : MemBank) (b : ℕ) :
    (g.setBank index bank).bank b = if b = index then bank else g.bank b :=
  Function.update_apply g.bank index bank b

theorem setBank_available_chunkList (g : MemPool) (index node b : ℕ) :
    ((g.setBank index { g.bank index with available := node }).bank b).chunkList =
      (g.bank b).chunkList := by
  rw [setBank_bank]
  split_ifs with hb
  · rw [hb]
  · rfl

theorem setBank_available_chunkTail (g : MemPool) (index node b : ℕ) :
    ((g.setBank index { g.bank index with available := node }).bank b).chunkTail =
      (g.bank b).chunkTail := by
  rw [setBank_bank]
  split_ifs with hb
  · rw [hb]
  · rfl

/-- The loop of `mem_list_format`, with the number of nodes still to be linked. -/
def formatFrom (w step : ℕ) : ℕ → ℕ → Memory → Memory
  | 0, _, mem => mem
  | n + 1, node, mem =>
    let mem := writeWord mem node w (node + step)
    formatFrom w step n (readWord mem node w) mem

def memListFormat (w : ℕ) (mem : Memory) (head size : ℕ) : Memory :=
  formatFrom w size (numMemNodesPerBank - 1) head (fill mem head (size * numMemNodesPerBank) 0)

def memBankInit (w : ℕ) (g : MemPool) (index : ℕ) (malloc : PoolMallocs) :
    SystemStatus × MemPool :=
  match malloc.record with
  | none => (.fail, g)
  | some (r, old) =>
    if malloc.chunk = 0 then
      (.fail, { g with chunk := Function.update g.chunk r (some { old with data := 0 }) }.setBank
        index { g.bank index with chunkList := some r, chunkTail := some r })
    else
      (.ok,
        { g with
          chunk := Function.update g.chunk r (some ⟨none, none, malloc.chunk⟩)
          mem := memListFormat w g.mem malloc.chunk index }.setBank
        index ⟨some r, some r, malloc.chunk⟩)

def memAddBank (w : ℕ) (g : MemPool) (index : ℕ) (malloc : PoolMallocs) :
    Option (SystemStatus × MemPool) :=
  let bank := g.bank index
  match bank.chunkList with
  | none => some (memBankInit w g index malloc)
  | some _ =>
    -- neither answer is tested here
    malloc.record.bind fun (r, _) =>
      if malloc.chunk = 0 then none
      else
        (writeNext (Function.update g.chunk r (some ⟨bank.chunkTail, none, malloc.chunk⟩))
          bank.chunkTail (some r)).map fun chunk =>
            (.ok,
              { g with chunk := chunk, mem := memListFormat w g.mem malloc.chunk index }.setBank
                index ⟨some r, bank.chunkList, malloc.chunk⟩)

def memAlloc (w : ℕ) (g : MemPool) (size : ℕ) (malloc : PoolMallocs) : Option (ℕ × MemPool) :=
  let size := (size + 1) % 256 ^ w
  if maxMemAllocatableSize < size then some (malloc.large, g)
  else
    let index := if 4 < size then size else 4
    if maxMemAllocatableSize ≤ index then none
    else
      (if (g.bank index).available = 0 then memAddBank w g index malloc else some (.ok, g)).bind
        fun (status, g) =>
          if status ≠ .ok then some (0, g)
          else
            let node := (g.bank index).available
            let bank := { g.bank index with available := readWord g.mem node w }
            some (node + 1,
              { g with mem := Function.update g.mem node (UInt8.ofNat size) }.setBank index bank)

def memFree (w : ℕ) (g : MemPool) (membit : ℕ) : Option MemPool :=
  if membit ≤ 1 then none
  else
    let node := membit - 1
    let index := (g.mem node).toNat
    if maxMemAllocatableSize ≤ index then none
    else
      some ({ g with mem := writeWord g.mem node w (g.bank index).available }.setBank index
        { g.bank index with available := node })

/-! ### The ways through `mem_alloc` -/

/-- The size that `mem_alloc` goes by: one byte more, for the header. -/
def headedSize (w size : ℕ) : ℕ := (size + 1) % 256 ^ w

def bankIndex (size : ℕ) : ℕ := if 4 < size then size else 4

def handOut (w : ℕ) (g : MemPool) (index size : ℕ) : ℕ × MemPool :=
  ((g.bank index).available + 1,
    { g with mem := Function.update g.mem (g.bank index).available (UInt8.ofNat size) }.setBank
      index { g.bank index with available := readWord g.mem (g.bank index).available w })

theorem bankIndex_lt {size : ℕ} : bankIndex size < maxMemAllocatableSize ↔
    size < maxMemAllocatableSize := by
  rw [bankIndex, maxMemAllocatableSize]
  split_ifs <;> omega

theorem headedSize_eq {w size : ℕ} (hw : 0 < w) (hmax : size + 1 < maxMemAllocatableSize) :
    headedSize w size = size + 1 := by
  apply Nat.mod_eq_of_lt
  calc size + 1 < 256 ^ 1 := lt_trans hmax (by decide)
    _ ≤ 256 ^ w := Nat.pow_le_pow_right (by decide) hw

theorem bankIndex_eq {size : ℕ} (h : 4 ≤ size) : bankIndex size = size := by
  rw [bankIndex]
  split_ifs <;> omega

section Ways

variable {w : ℕ} {g g' : MemPool} {size : ℕ} {malloc : PoolMallocs}

theorem memAlloc_large (h : maxMemAllocatableSize < headedSize w size) :
    memAlloc w g size malloc = some (malloc.large, g) := if_pos h

section Small

variable (h : headedSize w size < maxMemAllocatableSize)
include h

theorem memAlloc_small : memAlloc w g size malloc =
    (if (g.bank (bankIndex (headedSize w size))).available = 0 then
      memAddBank w g (bankIndex (headedSize w size)) malloc else some (.ok, g)).bind
        fun (status, g) =>
          if status ≠ .ok then some (0, g)
          else some (handOut w g (bankIndex (headedSize w size)) (headedSize w size)) := by
  have hlarge : ¬ maxMemAllocatableSize < (size + 1) % 256 ^ w := by
    change ¬ maxMemAllocatableSize < headedSize w size
    omega
  have hindex : ¬ maxMemAllocatableSize ≤ bankIndex (headedSize w size) := by
    rw [not_le, bankIndex_lt]
    exact h
  exact (if_neg hlarge).trans (if_neg hindex)

theorem memAlloc_free (havailable : (g.bank (bankIndex (headedSize w size))).available ≠ 0) :
    memAlloc w g size malloc =
      some (handOut w g (bankIndex (headedSize w size)) (headedSize w size)) := by
  rw [memAlloc_small h, if_neg havailable, Option.bind_some]
  exact if_neg (not_not_intro rfl)

theorem memAlloc_grown (havailable : (g.bank (bankIndex (headedSize w size))).available = 0)
    (hadd : memAddBank w g (bankIndex (headedSize w size)) malloc = some (.ok, g')) :
    memAlloc w g size malloc =
      some (handOut w g' (bankIndex (headedSize w size)) (headedSize w size)) := by
  rw [memAlloc_small h, if_pos havailable, hadd, Option.bind_some]
  exact if_neg (not_not_intro rfl)

theorem memAlloc_refused (havailable : (g.bank (bankIndex (headedSize w size))).available = 0)
    {status : SystemStatus} (hstatus : status ≠ .ok)
    (hadd : memAddBank w g (bankIndex (headedSize w size)) malloc = some (status, g')) :
    memAlloc w g size malloc = some (0, g') := by
  rw [memAlloc_small h, if_pos havailable, hadd, Option.bind_some]
  exact if_pos hstatus

theorem memAlloc_stuck (havailable : (g.bank (bankIndex (headedSize w size))).available = 0)
    (hadd : memAddBank w g (bankIndex (headedSize w size)) malloc = none) :
    memAlloc w g size malloc = none := by
  rw [memAlloc_small h, if_pos havailable, hadd, Option.bind_none]

end Small

end Ways

theorem memFree_eq {w : ℕ} {g : MemPool} {membit : ℕ} (hptr : 1 < membit)
    (hindex : (g.mem (membit - 1)).toNat < maxMemAllocatableSize) :
    memFree w g membit = some
      ({ g with
          mem := writeWord g.mem (membit - 1) w
            (g.bank (g.mem (membit - 1)).toNat).available }.setBank (g.mem (membit - 1)).toNat
        { g.bank (g.mem (membit - 1)).toNat with available := membit - 1 }) :=
  (if_neg (not_le.mpr hptr)).trans (if_neg (not_le.mpr hindex))

theorem memFree_cases {w : ℕ} {g g' : MemPool} {membit : ℕ} (h : memFree w g membit = some g') :
    1 < membit ∧ (g.mem (membit - 1)).toNat < maxMemAllocatableSize ∧
      g' = { g with
          mem := writeWord g.mem (membit - 1) w
            (g.bank (g.mem (membit - 1)).toNat).available }.setBank (g.mem (membit - 1)).toNat
        { g.bank (g.mem (membit - 1)).toNat with available := membit - 1 } := by
  rw [memFree] at h
  dsimp only at h
  split_ifs at h with hptr hindex
  exact ⟨not_le.mp hptr, not_le.mp hindex, (Option.some.inj h).symm⟩

/-! ### Formatting a chunk -/

def nodesFrom (step : ℕ) : ℕ → ℕ → List ℕ
  | _, 0 => []
  | node, n + 1 => node :: nodesFrom step (node + step) n

theorem mem_nodesFrom {step node n x : ℕ} :
    x ∈ nodesFrom step node n ↔ ∃ i < n, x = node + i * step := by
  induction n generalizing node with
  | zero => simp [nodesFrom]
  | succ n ih =>
    rw [nodesFrom, List.mem_cons, ih]
    constructor
    · rintro (rfl | ⟨i, hi, rfl⟩)
      · exact ⟨0, by omega, by simp⟩
      · exact ⟨i + 1, by omega, by rw [Nat.add_mul]; omega⟩
    · rintro ⟨i, hi, rfl⟩
      cases i with
      | zero =>
        left
        simp
      | succ i =>
        right
        exact ⟨i, by omega, by rw [Nat.add_mul]; omega⟩

theorem nodesFrom_nodup {step : ℕ} (hstep : 0 < step) (node n : ℕ) :
    (nodesFrom step node n).Nodup := by
  induction n generalizing node with
  | zero => exact List.nodup_nil
  | succ n ih =>
    rw [nodesFrom, List.nodup_cons]
    refine ⟨?_, ih (node + step)⟩
    rw [mem_nodesFrom]
    rintro ⟨i, -, hi⟩
    omega

theorem nodesFrom_eq_map (step node n : ℕ) :
    nodesFrom step node n = (List.range n).map fun i => node + i * step := by
  induction n generalizing node with
  | zero => rfl
  | succ n ih =>
    rw [nodesFrom, ih, List.range_succ_eq_map, List.map_cons, List.map_map]
    congr 1
    · simp
    · apply List.map_congr_left
      intro i _
      rw [Function.comp_apply, Nat.succ_eq_add_one, Nat.add_mul]
      omega

/-- In cleared memory the nodes get linked, and nothing outside of them changes. -/
theorem formatFrom_chain {w step : ℕ} (hw : 0 < w) (hstep : w ≤ step) (n node : ℕ)
    (mem : Memory) (hnode : node ≠ 0) (hfit : node + (n + 1) * step ≤ 256 ^ w)
    (hzero : ∀ x, node ≤ x → x < node + (n + 1) * step → mem x = 0) :
    Chain (fun a => readWord (formatFrom w step n node mem) a w) 0 node
        (nodesFrom step node (n + 1)) ∧
      AgreeOff mem (formatFrom w step n node mem) node ((n + 1) * step) := by
  induction n generalizing node mem with
  | zero =>
    constructor
    · refine ⟨rfl, hnode, ?_⟩
      apply readWord_eq_zero
      intro x hx hlt
      apply hzero x hx
      rw [Nat.zero_add, Nat.one_mul]
      omega
    · intro x _
      rfl
  | succ n ih =>
    have hmul : (n + 1 + 1) * step = (n + 1) * step + step := Nat.succ_mul (n + 1) step
    have hpos : 0 < (n + 1) * step := Nat.mul_pos (Nat.succ_pos n) (by omega)
    have hback : readWord (writeWord mem node w (node + step)) node w = node + step :=
      readWord_writeWord mem node (by omega)
    have hwrite := agreeOff_writeWord mem node w (node + step)
    obtain ⟨hchain, hoff⟩ := ih (node + step) (writeWord mem node w (node + step))
      (by omega) (by omega) (by
        intro x hx hlt
        rw [hwrite x (by omega)]
        exact hzero x (by omega) (by omega))
    rw [formatFrom, hback]
    constructor
    · refine ⟨rfl, hnode, ?_⟩
      have hkeep := readWord_congr (hoff.agreeOn (b := node) (m := w) (by omega))
      dsimp only
      rw [hkeep, hback]
      exact hchain
    · apply (hwrite.mono le_rfl (by omega)).trans
      exact hoff.mono (by omega) (by omega)

theorem memListFormat_chain {w size : ℕ} (hw : 0 < w) (hsize : w ≤ size) (mem : Memory) {head : ℕ}
    (hhead : head ≠ 0) (hfit : head + numMemNodesPerBank * size ≤ 256 ^ w) :
    Chain (fun a => readWord (memListFormat w mem head size) a w) 0 head
        (nodesFrom size head numMemNodesPerBank) ∧
      AgreeOff mem (memListFormat w mem head size) head (numMemNodesPerBank * size) := by
  have hfill : AgreeOff mem (fill mem head (size * numMemNodesPerBank) 0) head
      (numMemNodesPerBank * size) := by
    rw [Nat.mul_comm numMemNodesPerBank size]
    exact agreeOff_fill mem head (size * numMemNodesPerBank) 0
  obtain ⟨hchain, hoff⟩ := formatFrom_chain hw hsize (numMemNodesPerBank - 1) head
    (fill mem head (size * numMemNodesPerBank) 0) hhead hfit (by
      intro x hx hlt
      apply fill_apply 0 hx
      rwa [Nat.mul_comm])
  exact ⟨hchain, hfill.trans hoff⟩

end MorningProjects.Pool
