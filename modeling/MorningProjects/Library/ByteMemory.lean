import Mathlib.Logic.Function.Basic
import Mathlib.Tactic

/-!
# Words in a byte memory, and lists threaded through it

A word is stored with its low byte first. A chain follows a function from node to
node until it reaches the null node; when the function reads a word at the node,
the chain is a linked list inside the memory.
-/
namespace MorningProjects.Library

abbrev Memory := ℕ → UInt8

def readWord (mem : Memory) (a : ℕ) : ℕ → ℕ
  | 0 => 0
  | w + 1 => (mem a).toNat + 256 * readWord mem (a + 1) w

def writeWord (mem : Memory) (a : ℕ) : ℕ → ℕ → Memory
  | 0, _ => mem
  | w + 1, v => writeWord (Function.update mem a (UInt8.ofNat v)) (a + 1) w (v / 256)

def fill (mem : Memory) (a n : ℕ) (v : UInt8) : Memory :=
  fun x => if a ≤ x ∧ x < a + n then v else mem x

def AgreeOn (mem mem' : Memory) (a n : ℕ) : Prop := ∀ x, a ≤ x → x < a + n → mem' x = mem x

/-- Two memories agree outside of `n` bytes from an address on. -/
def AgreeOff (mem mem' : Memory) (a n : ℕ) : Prop := ∀ x, x < a ∨ a + n ≤ x → mem' x = mem x

section Words

variable {mem mem' mem'' : Memory} {a b n m w v : ℕ}

theorem AgreeOff.trans (h : AgreeOff mem mem' a n) (h' : AgreeOff mem' mem'' a n) :
    AgreeOff mem mem'' a n := by
  intro x hx
  rw [h' x hx, h x hx]

theorem AgreeOff.mono (h : AgreeOff mem mem' b m) (hle : a ≤ b) (hend : b + m ≤ a + n) :
    AgreeOff mem mem' a n := by
  intro x hx
  apply h
  omega

/-- What lies apart from the bytes written stays the same. -/
theorem AgreeOff.agreeOn (h : AgreeOff mem mem' a n) (hapart : a + n ≤ b ∨ b + m ≤ a) :
    AgreeOn mem mem' b m := by
  intro x hx hlt
  apply h
  omega

theorem AgreeOn.mono (h : AgreeOn mem mem' a n) (hle : m ≤ n) : AgreeOn mem mem' a m := by
  intro x hx hlt
  apply h x hx
  omega

theorem agreeOff_fill (mem : Memory) (a n : ℕ) (v : UInt8) : AgreeOff mem (fill mem a n v) a n := by
  intro x hx
  rw [fill, if_neg]
  omega

theorem fill_apply {x : ℕ} (v : UInt8) (hx : a ≤ x) (hlt : x < a + n) : fill mem a n v x = v := by
  rw [fill, if_pos ⟨hx, hlt⟩]

theorem agreeOff_update (mem : Memory) (a : ℕ) (v : UInt8) :
    AgreeOff mem (Function.update mem a v) a 1 := by
  intro x hx
  rw [Function.update_of_ne]
  omega

theorem agreeOff_writeWord (mem : Memory) (a w v : ℕ) : AgreeOff mem (writeWord mem a w v) a w := by
  induction w generalizing mem a v with
  | zero =>
    intro x _
    rfl
  | succ w ih =>
    have hfirst := agreeOff_update mem a (UInt8.ofNat v)
    apply (hfirst.mono le_rfl (by omega)).trans
    exact (ih _ (a + 1) (v / 256)).mono (by omega) (by omega)

theorem readWord_congr (h : AgreeOn mem mem' a w) : readWord mem' a w = readWord mem a w := by
  induction w generalizing a with
  | zero => rfl
  | succ w ih =>
    have hrest : AgreeOn mem mem' (a + 1) w := by
      intro x hx hlt
      apply h
      · omega
      · omega
    rw [readWord, readWord, h a le_rfl (by omega), ih hrest]

theorem readWord_eq_zero (h : ∀ x, a ≤ x → x < a + w → mem x = 0) : readWord mem a w = 0 := by
  induction w generalizing a with
  | zero => rfl
  | succ w ih =>
    have hrest := ih (a := a + 1) fun x hx hlt => h x (by omega) (by omega)
    rw [readWord, h a le_rfl (by omega), hrest]
    rfl

theorem readWord_writeWord (mem : Memory) (a : ℕ) (h : v < 256 ^ w) :
    readWord (writeWord mem a w v) a w = v := by
  induction w generalizing mem a v with
  | zero =>
    rw [pow_zero] at h
    rw [readWord]
    omega
  | succ w ih =>
    have hrest : v / 256 < 256 ^ w := by
      rw [Nat.div_lt_iff_lt_mul (by decide)]
      rwa [pow_succ] at h
    have hlow : writeWord (Function.update mem a (UInt8.ofNat v)) (a + 1) w (v / 256) a =
        UInt8.ofNat v := by
      rw [agreeOff_writeWord _ (a + 1) w (v / 256) a (by omega), Function.update_self]
    rw [readWord, writeWord, hlow, ih _ (a + 1) hrest, UInt8.toNat_ofNat']
    exact Nat.mod_add_div v 256

end Words

/-- From the first node, `next` leads through the list to the null node. -/
def Chain {α : Type*} (next : α → α) (null : α) : α → List α → Prop
  | a, [] => a = null
  | a, n :: ns => a = n ∧ n ≠ null ∧ Chain next null (next n) ns

section Chain

variable {α : Type*} {next next' : α → α} {null a : α} {ns : List α}

theorem Chain.congr (h : Chain next null a ns) (heq : ∀ n ∈ ns, next' n = next n) :
    Chain next' null a ns := by
  induction ns generalizing a with
  | nil => exact h
  | cons n ns ih =>
    obtain ⟨ha, hn, hrest⟩ := h
    refine ⟨ha, hn, ?_⟩
    rw [heq n List.mem_cons_self]
    exact ih hrest fun m hm => heq m (List.mem_cons_of_mem n hm)

theorem Chain.head (h : Chain next null a ns) (ha : a ≠ null) :
    ∃ ms, ns = a :: ms ∧ Chain next null (next a) ms := by
  cases ns with
  | nil => exact (ha h).elim
  | cons n ms =>
    obtain ⟨rfl, -, hrest⟩ := h
    exact ⟨ms, rfl, hrest⟩

theorem Chain.eq_nil (h : Chain next null null ns) : ns = [] := by
  cases ns with
  | nil => rfl
  | cons n ns => exact (h.2.1 h.1.symm).elim

theorem Chain.mem_or (h : Chain next null a ns) : a = null ∨ a ∈ ns := by
  cases ns with
  | nil => exact .inl h
  | cons n ns => exact .inr (h.1 ▸ List.mem_cons_self)

end Chain

end MorningProjects.Library
