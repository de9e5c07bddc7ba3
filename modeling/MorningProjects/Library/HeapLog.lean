import Mathlib.Data.List.Basic
import Mathlib.Tactic

/-!
# The log of a heap

What a program asks of the heap and does with its blocks, in order: answers of
`malloc`, fields of blocks read and written, blocks given back. A log tells whether
an access stays inside of its block, whether what is read was written before, and
whether every block is given back once.
-/
namespace MorningProjects.Library

/-- An answer of `malloc` is `none` for NULL. -/
inductive HeapEvent (φ : Type*) where
  | malloc (answer : Option ℕ) (bytes : ℕ)
  | read (a : ℕ) (field : φ)
  | write (a : ℕ) (field : φ)
  | free (a : ℕ)
  deriving DecidableEq, Repr

variable {φ : Type*}

def HeapEvent.block? : HeapEvent φ → Option (ℕ × ℕ)
  | .malloc answer bytes => answer.map fun a => (a, bytes)
  | _ => none

def HeapEvent.freed? : HeapEvent φ → Option ℕ
  | .free a => some a
  | _ => none

def blocks (log : List (HeapEvent φ)) : List (ℕ × ℕ) := log.filterMap HeapEvent.block?

def freed (log : List (HeapEvent φ)) : List ℕ := log.filterMap HeapEvent.freed?

/-- `malloc` hands out blocks in the address space that lie apart from each other. -/
structure MallocFresh (limit : ℕ) (log : List (HeapEvent φ)) : Prop where
  fits : ∀ block ∈ blocks log, 0 < block.1 ∧ block.1 + block.2 ≤ limit
  apart : (blocks log).Pairwise fun x y => x.1 ≠ y.1 ∧ (x.1 + x.2 ≤ y.1 ∨ y.1 + y.2 ≤ x.1)

def InBounds (reach : φ → ℕ) (log : List (HeapEvent φ)) : Prop :=
  ∀ a f, .read a f ∈ log ∨ .write a f ∈ log →
    ∃ bytes, (a, bytes) ∈ blocks log ∧ ∀ bytes, (a, bytes) ∈ blocks log → reach f ≤ bytes

/-- What is given back is what was handed out, each block once. -/
def FreedOnce (log : List (HeapEvent φ)) : Prop := (freed log).Perm ((blocks log).map Prod.fst)

variable {log log' before : List (HeapEvent φ)} {a bytes limit : ℕ} {f : φ} {reach : φ → ℕ}

@[simp] theorem blocks_append : blocks (log ++ log') = blocks log ++ blocks log' :=
  List.filterMap_append

@[simp] theorem freed_append : freed (log ++ log') = freed log ++ freed log' :=
  List.filterMap_append

theorem mem_blocks : (a, bytes) ∈ blocks log ↔ .malloc (some a) bytes ∈ log := by
  rw [blocks, List.mem_filterMap]
  constructor
  · rintro ⟨e, he, hblock⟩
    cases e with
    | malloc answer n =>
      obtain ⟨b, rfl, heq⟩ := Option.map_eq_some_iff.mp hblock
      obtain ⟨rfl, rfl⟩ := Prod.mk.inj heq
      exact he
    | read b f => cases hblock
    | write b f => cases hblock
    | free b => cases hblock
  · intro h
    exact ⟨_, h, rfl⟩

/-- A block that comes later is another one and lies apart from all before. -/
theorem MallocFresh.apart_of_mem (h : MallocFresh limit (log ++ log')) {x y : ℕ × ℕ}
    (hx : x ∈ blocks log) (hy : y ∈ blocks log') :
    x.1 ≠ y.1 ∧ (x.1 + x.2 ≤ y.1 ∨ y.1 + y.2 ≤ x.1) := by
  have hapart := h.apart
  rw [blocks_append] at hapart
  exact (List.pairwise_append.mp hapart).2.2 x hx y hy

theorem InBounds.append (h : InBounds reach log) (h' : InBounds reach log')
    (hfresh : MallocFresh limit (log ++ log')) : InBounds reach (log ++ log') := by
  intro a f haccess
  have hside : (.read a f ∈ log ∨ .write a f ∈ log) ∨ .read a f ∈ log' ∨ .write a f ∈ log' := by
    simp only [List.mem_append] at haccess
    tauto
  rw [blocks_append]
  rcases hside with hside | hside
  · obtain ⟨bytes, hblock, hreach⟩ := h a f hside
    refine ⟨bytes, List.mem_append_left _ hblock, ?_⟩
    intro bytes' hblock'
    rcases List.mem_append.mp hblock' with hmem | hmem
    · exact hreach bytes' hmem
    · exact ((hfresh.apart_of_mem hblock hmem).1 rfl).elim
  · obtain ⟨bytes, hblock, hreach⟩ := h' a f hside
    refine ⟨bytes, List.mem_append_right _ hblock, ?_⟩
    intro bytes' hblock'
    rcases List.mem_append.mp hblock' with hmem | hmem
    · exact ((hfresh.apart_of_mem hmem hblock).1 rfl).elim
    · exact hreach bytes' hmem

end MorningProjects.Library
