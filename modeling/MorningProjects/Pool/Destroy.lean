import MorningProjects.Library.HeapLog
import MorningProjects.Pool.Refinement

/-!
# What the pool does with its heap

The blocks that `mem_alloc` asks `malloc` for, the fields of the chunk records it
reads and writes, and `mem_pool_destroy`, which goes back along the records of every
bank and frees them with their chunks.
-/
namespace MorningProjects.Pool
open Library

inductive RecordField where
  | previousChunk
  | nextChunk
  | pMemChunk
  deriving DecidableEq, Repr

def RecordField.reach (w : ℕ) : RecordField → ℕ
  | .previousChunk => w
  | .nextChunk => 2 * w
  | .pMemChunk => 3 * w

def sizeofMemChunk (w : ℕ) : ℕ := 3 * w

abbrev PoolLog := List (HeapEvent RecordField)

/-- The answer for a chunk or a large block, as an event. -/
def answerOf (p : ℕ) : Option ℕ := if p = 0 then none else some p

theorem answerOf_eq {p : ℕ} (hp : p ≠ 0) : answerOf p = some p := if_neg hp

def memBankInitLog (w index : ℕ) (malloc : PoolMallocs) : PoolLog :=
  match malloc.record with
  | none => [.malloc none (sizeofMemChunk w)]
  | some (r, _) =>
    [.malloc (some r) (sizeofMemChunk w),
      .malloc (answerOf malloc.chunk) (numMemNodesPerBank * index),
      .write r .pMemChunk, .read r .pMemChunk] ++
    if malloc.chunk = 0 then []
    else [.write r .nextChunk, .write r .previousChunk, .read r .pMemChunk]

/-- On the growth path the record gets the size of a pointer to a record. -/
def memAddBankLog (w : ℕ) (g : MemPool) (index : ℕ) (malloc : PoolMallocs) : PoolLog :=
  match (g.bank index).chunkList with
  | none => memBankInitLog w index malloc
  | some _ =>
    .malloc (malloc.record.map Prod.fst) w ::
    .malloc (answerOf malloc.chunk) (numMemNodesPerBank * index) ::
    match malloc.record with
    | none => []
    | some (r, _) =>
      [.write r .pMemChunk, .write r .nextChunk, .write r .previousChunk] ++
      ((g.bank index).chunkTail.toList.map fun tail => .write tail .nextChunk) ++
      [.read r .pMemChunk, .read r .pMemChunk]

def memAllocLog (w : ℕ) (g : MemPool) (size : ℕ) (malloc : PoolMallocs) : PoolLog :=
  let size := (size + 1) % 256 ^ w
  if maxMemAllocatableSize < size then [.malloc (answerOf malloc.large) size]
  else
    let index := if 4 < size then size else 4
    if maxMemAllocatableSize ≤ index then []
    else if (g.bank index).available = 0 then memAddBankLog w g index malloc
    else []

/-- The loop of `mem_pool_destroy` over the records of a bank, from the last one back. -/
def freeChunks : ℕ → LinkHeap ℕ ℕ → Option ℕ → Option (LinkHeap ℕ ℕ × PoolLog)
  | _, heap, none => some (heap, [])
  | 0, _, some _ => none
  | fuel + 1, heap, some r => do
    let previous ← readPrev heap (some r)
    let p ← readData heap (some r)
    let heap ← release heap (some r)
    let (heap, log) ← freeChunks fuel heap previous
    return (heap, [.read r .previousChunk, .read r .pMemChunk] ++
      (answerOf p).toList.map .free ++ .free r :: log)

def destroyBank (fuel : ℕ) (g : MemPool) (i : ℕ) : Option (MemPool × PoolLog) :=
  match (g.bank i).chunkList with
  | none => some (g, [])
  | some _ =>
    (freeChunks fuel g.chunk (g.bank i).chunkTail).map fun (chunk, log) =>
      ({ g with chunk := chunk }.setBank i ⟨none, none, 0⟩, log)

def destroyBanks (fuel : ℕ) : MemPool → List ℕ → Option (MemPool × PoolLog)
  | g, [] => some (g, [])
  | g, i :: is =>
    (destroyBank fuel g i).bind fun (g, log) =>
      (destroyBanks fuel g is).map fun (g, log') => (g, log ++ log')

/-- `mem_pool_destroy`, with fuel for the records of a bank. -/
def memPoolDestroy (fuel : ℕ) (g : MemPool) : Option (SystemStatus × MemPool × PoolLog) :=
  (destroyBanks fuel g (List.range maxMemAllocatableSize)).map fun (g, log) => (.ok, g, log)

/-! ### Going back along the records -/

def recordLog (heap : LinkHeap ℕ ℕ) (r : ℕ) : PoolLog :=
  [.read r .previousChunk, .read r .pMemChunk] ++
    ((readData heap (some r)).bind answerOf).toList.map .free ++ [.free r]

def withoutRecords (heap : LinkHeap ℕ ℕ) (rs : List ℕ) : LinkHeap ℕ ℕ :=
  fun x => if x ∈ rs then none else heap x

theorem recordLog_congr {heap heap' : LinkHeap ℕ ℕ} {r : ℕ} (h : heap' r = heap r) :
    recordLog heap' r = recordLog heap r := by
  rw [recordLog, recordLog, readData_congr h]

theorem withoutRecords_of_not_mem {heap : LinkHeap ℕ ℕ} {rs : List ℕ} {x : ℕ} (hx : x ∉ rs) :
    withoutRecords heap rs x = heap x := if_neg hx

/-- The loop frees linked records from the last to the first. -/
theorem freeChunks_eq {heap : LinkHeap ℕ ℕ} {rs : List ℕ} {q : Option ℕ}
    (hs : Segment heap none rs q) (hnodup : rs.Nodup) {fuel : ℕ} (hfuel : rs.length ≤ fuel) :
    freeChunks fuel heap rs.getLast? =
      some (withoutRecords heap rs, rs.reverse.flatMap (recordLog heap)) := by
  induction rs using List.reverseRecOn generalizing heap q fuel with
  | nil =>
    have hsame : withoutRecords heap [] = heap := rfl
    cases fuel <;> simp [freeChunks, hsame]
  | append_singleton rs r ih =>
    rw [List.length_append, List.length_singleton] at hfuel
    obtain ⟨fuel, rfl⟩ := Nat.exists_eq_add_of_le' (Nat.le_of_add_left_le hfuel)
    obtain ⟨hrs, ⟨d, hr⟩, -⟩ := segment_append.mp hs
    have hout : r ∉ rs := by
      intro hmem
      exact (List.nodup_append.mp hnodup).2.2 r hmem r (List.mem_singleton_self r) rfl
    have hsame : ∀ x ∈ rs, Function.update heap r none x = heap x := by
      intro x hx
      apply Function.update_of_ne
      rintro rfl
      exact hout hx
    have hrest := ih (hrs.congr hsame) (List.nodup_append.mp hnodup).1
      (by omega : rs.length ≤ fuel)
    have hprev : readPrev heap (some r) = some rs.getLast? := by
      rw [readPrev_eq hr, Option.or_none]
    have hheap : withoutRecords (Function.update heap r none) rs =
        withoutRecords heap (rs ++ [r]) := by
      funext x
      rw [withoutRecords, withoutRecords, Function.update_apply]
      by_cases hx : x = r
      · simp [hx]
      · simp [hx]
    have hlogs : rs.reverse.flatMap (recordLog (Function.update heap r none)) =
        rs.reverse.flatMap (recordLog heap) := by
      apply List.flatMap_congr
      intro x hx
      exact recordLog_congr (hsame x (List.mem_reverse.mp hx))
    rw [List.getLast?_concat, freeChunks, hprev, readData_eq hr,
      release_eq (by rw [hr]; rfl)]
    simp only [Option.bind_eq_bind, Option.bind_some, hrest, hheap, hlogs]
    rw [List.reverse_concat, List.flatMap_cons, recordLog, readData_eq hr]
    simp

/-! ### All banks -/

section Banks

variable {g : MemPool} {records : ℕ → List ℕ} {fuel : ℕ}

def resetBank (rs : List ℕ) (bank : MemBank) : MemBank :=
  if rs = [] then bank else ⟨none, none, 0⟩

theorem KeepsRecords.destroyBank_eq (h : KeepsRecords g records) {i : ℕ}
    (hfuel : (records i).length ≤ fuel) :
    destroyBank fuel g i = some
      ({ g with chunk := withoutRecords g.chunk (records i) }.setBank i
        (resetBank (records i) (g.bank i)),
        (records i).reverse.flatMap (recordLog g.chunk)) := by
  rw [destroyBank, h.chunkList, h.chunkTail, freeChunks_eq (h.segment i) (h.nodup i) hfuel]
  by_cases hnil : records i = []
  · have hbank : g.setBank i (g.bank i) = g := by
      rw [MemPool.setBank, Function.update_eq_self]
    rw [hnil, resetBank, if_pos rfl]
    exact congrArg (fun g => some (g, [])) hbank.symm
  · rw [List.head?_eq_some_head hnil, resetBank, if_neg hnil]
    rfl

theorem KeepsRecords.without (h : KeepsRecords g records) (i : ℕ) :
    KeepsRecords ({ g with chunk := withoutRecords g.chunk (records i) }.setBank i
      (resetBank (records i) (g.bank i))) (Function.update records i []) := by
  have hmem : ∀ b x, x ∈ Function.update records i [] b → b ≠ i ∧ x ∈ records b := by
    intro b x hx
    rw [Function.update_apply] at hx
    split_ifs at hx with hb
    · cases hx
    · exact ⟨hb, hx⟩
  have hreset : ∀ rs : List ℕ, (g.bank i).chunkList = rs.head? →
      (g.bank i).chunkTail = rs.getLast? →
      (resetBank rs (g.bank i)).chunkList = none ∧ (resetBank rs (g.bank i)).chunkTail = none := by
    intro rs hhead hlast
    rw [resetBank]
    split_ifs with hnil
    · rw [hhead, hlast, hnil]
      exact ⟨rfl, rfl⟩
    · exact ⟨rfl, rfl⟩
  constructor
  · intro b
    rw [Function.update_apply]
    split_ifs with hb
    · trivial
    · apply (h.segment b).congr
      intro x hx
      exact withoutRecords_of_not_mem (h.apart b i hb x hx)
  · intro b
    rw [Function.update_apply]
    split_ifs
    · exact List.nodup_nil
    · exact h.nodup b
  · intro b b' hne x hx hx'
    exact h.apart b b' hne x (hmem b x hx).2 (hmem b' x hx').2
  · intro b
    rw [setBank_bank, Function.update_apply]
    split_ifs
    · exact (hreset _ (h.chunkList i) (h.chunkTail i)).1
    · exact h.chunkList b
  · intro b
    rw [setBank_bank, Function.update_apply]
    split_ifs
    · exact (hreset _ (h.chunkList i) (h.chunkTail i)).2
    · exact h.chunkTail b

theorem KeepsRecords.destroyBanks_eq (h : KeepsRecords g records) {is : List ℕ} (hnodup : is.Nodup)
    (hfuel : ∀ i ∈ is, (records i).length ≤ fuel) :
    ∃ g', destroyBanks fuel g is =
        some (g', is.flatMap fun i => (records i).reverse.flatMap (recordLog g.chunk)) ∧
      ∀ b, g'.bank b = if b ∈ is then resetBank (records b) (g.bank b) else g.bank b := by
  induction is generalizing g records with
  | nil => exact ⟨g, rfl, fun b => rfl⟩
  | cons i is ih =>
    obtain ⟨hi, hnodup⟩ := List.nodup_cons.mp hnodup
    have hother : ∀ j ∈ is, Function.update records i [] j = records j := by
      intro j hj
      apply Function.update_of_ne
      rintro rfl
      exact hi hj
    obtain ⟨g', hg', hbank⟩ := ih (h.without i) hnodup (by
      intro j hj
      rw [hother j hj]
      exact hfuel j (List.mem_cons_of_mem i hj))
    refine ⟨g', ?_, ?_⟩
    · rw [destroyBanks, h.destroyBank_eq (hfuel i List.mem_cons_self), Option.bind_some]
      dsimp only
      rw [hg', Option.map_some, List.flatMap_cons]
      congr 3
      apply List.flatMap_congr
      intro j hj
      rw [hother j hj]
      apply List.flatMap_congr
      intro r hr
      apply recordLog_congr
      apply withoutRecords_of_not_mem
      apply h.apart j i _ r (List.mem_reverse.mp hr)
      rintro rfl
      exact hi hj
    · intro b
      rw [hbank, setBank_bank]
      by_cases hb : b = i
      · rw [if_neg (hb ▸ hi), if_pos hb, if_pos (hb ▸ List.mem_cons_self), hb]
      · by_cases hmem : b ∈ is
        · rw [if_pos hmem, if_pos (List.mem_cons_of_mem i hmem), if_neg hb, hother b hmem]
        · rw [if_neg hmem, if_neg hb, if_neg (by simp [hb, hmem])]

def destroyLog (heap : LinkHeap ℕ ℕ) (records : ℕ → List ℕ) : PoolLog :=
  (List.range maxMemAllocatableSize).flatMap fun i => (records i).reverse.flatMap (recordLog heap)

/-- `mem_pool_destroy` frees the records of all banks and resets the banks that have some. -/
theorem KeepsRecords.memPoolDestroy_eq (h : KeepsRecords g records)
    (hfuel : ∀ i < maxMemAllocatableSize, (records i).length ≤ fuel) :
    ∃ g', memPoolDestroy fuel g = some (.ok, g', destroyLog g.chunk records) ∧
      ∀ b, g'.bank b =
        if b < maxMemAllocatableSize then resetBank (records b) (g.bank b) else g.bank b := by
  obtain ⟨g', hg', hbank⟩ :=
    h.destroyBanks_eq List.nodup_range fun i hi => hfuel i (List.mem_range.mp hi)
  refine ⟨g', ?_, ?_⟩
  · rw [memPoolDestroy, hg']
    rfl
  · intro b
    rw [hbank]
    simp only [List.mem_range]

theorem destroyBanks_unlisted {g' : MemPool} {log : PoolLog} {is : List ℕ} {b : ℕ}
    (hb : (g.bank b).chunkList = none) (h : destroyBanks fuel g is = some (g', log)) :
    g'.bank b = g.bank b := by
  induction is generalizing g log with
  | nil =>
    obtain ⟨rfl, -⟩ := Prod.mk.inj (Option.some.inj h)
    rfl
  | cons i is ih =>
    obtain ⟨⟨g₁, log₁⟩, hfirst, hrest⟩ := Option.bind_eq_some_iff.mp h
    obtain ⟨⟨g₂, log₂⟩, hbanks, heq⟩ := Option.map_eq_some_iff.mp hrest
    obtain ⟨rfl, -⟩ := Prod.mk.inj heq
    have hsame : g₁.bank b = g.bank b := by
      rw [destroyBank] at hfirst
      cases hlist : (g.bank i).chunkList with
      | none =>
        rw [hlist] at hfirst
        obtain ⟨rfl, -⟩ := Prod.mk.inj (Option.some.inj hfirst)
        rfl
      | some r =>
        rw [hlist] at hfirst
        obtain ⟨⟨chunk, log'⟩, -, heq⟩ := Option.map_eq_some_iff.mp hfirst
        obtain ⟨rfl, -⟩ := Prod.mk.inj heq
        rw [setBank_bank, if_neg]
        rintro rfl
        rw [hb] at hlist
        cases hlist
    rw [← hsame]
    exact ih (by rw [hsame, hb]) hbanks

end Banks

end MorningProjects.Pool
