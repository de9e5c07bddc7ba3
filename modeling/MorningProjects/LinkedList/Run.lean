import MorningProjects.Library.Runs
import MorningProjects.LinkedList.Sort

/-!
# Runs of the list demo

`insert_next` and `insert_prev` do not count the node they add, and
`list_destroy` leaves the tail behind. Every run that stays clear of both keeps
the list well formed.
-/
namespace MorningProjects.LinkedList
open Library

inductive LinkitOp where
  | insertHead (data : ℤ) (malloc : Option ℕ)
  | insertTail (data : ℤ) (malloc : Option ℕ)
  | insertPrev (data : ℤ) (malloc : Option ℕ)
  | insertNext (data : ℤ) (malloc : Option ℕ)
  | dataRemove (data : ℤ)
  | removeCurrent
  | removePrev
  | removeNext
  | listSort (isAscending : Bool)
  | listDestroy
  | moveHead
  | moveTail
  | movePrev
  | moveNext

def linkitStep (fuel : ℕ) (s : Linkit) : LinkitOp → Option Linkit
  | .insertHead data malloc => (insertHead s data malloc).map Prod.snd
  | .insertTail data malloc => (insertTail s data malloc).map Prod.snd
  | .insertPrev data malloc => (insertPrev s data malloc).map Prod.snd
  | .insertNext data malloc => (insertNext s data malloc).map Prod.snd
  | .dataRemove data => (dataRemove fuel s data).map Prod.snd
  | .removeCurrent => removeCurrent s
  | .removePrev => removePrev s
  | .removeNext => removeNext s
  | .listSort isAscending => (listSort fuel s isAscending).map Prod.snd
  | .listDestroy => (listDestroy fuel s).map Prod.snd
  | .moveHead => some (moveHead s)
  | .moveTail => some (moveTail s)
  | .movePrev => movePrev s
  | .moveNext => moveNext s

/-- `malloc` returns NULL or the address of a node that is not in use. -/
def Linkit.Fresh (s : Linkit) (malloc : Option ℕ) : Prop :=
  ∀ a, malloc = some a → s.heap a = none

def Linkit.Permits (s : Linkit) : LinkitOp → Prop
  | .insertHead _ malloc | .insertTail _ malloc | .insertPrev _ malloc | .insertNext _ malloc =>
    s.Fresh malloc
  | _ => True

/-- The condition on a command: next to the cursor nothing is inserted, and only the
empty list is destroyed. -/
def Linkit.Meets (s : Linkit) : LinkitOp → Prop
  | .insertPrev _ malloc | .insertNext _ malloc =>
    malloc = none ∨ s.currentElem = none ∧ s.numNodes ≠ 0
  | .listDestroy => s.numNodes = 0
  | _ => True

section Step

variable {s : Linkit} {as : List ℕ}

theorem insertNext_refused {malloc : Option ℕ}
    (h : malloc = none ∨ s.currentElem = none ∧ s.numNodes ≠ 0) (data : ℤ) :
    insertNext s data malloc = some (.failure, s) := by
  rcases h with rfl | h
  · exact ite_id _
  · exact if_pos h

theorem insertPrev_refused {malloc : Option ℕ}
    (h : malloc = none ∨ s.currentElem = none ∧ s.numNodes ≠ 0) (data : ℤ) :
    insertPrev s data malloc = some (.failure, s) := by
  rcases h with rfl | h
  · exact ite_id _
  · exact if_pos h

theorem Linkit.ListOf.listDestroy (h : s.ListOf as) (h0 : s.numNodes = 0) (fuel : ℕ) :
    ∃ s', LinkedList.listDestroy fuel s = some (.success, s') ∧ s'.ListOf as := by
  refine ⟨_, by rw [LinkedList.listDestroy, if_pos h0], ?_⟩
  exact ⟨h.nodup, h.segment, h.live, h.head, h.tail, h0 ▸ h.counted, fun a ha => by cases ha⟩

/-- One command that meets its condition, on a list with fewer nodes than the fuel. -/
theorem linkitStep_listUpTo {fuel n : ℕ} (hn : n < fuel) (h : s.ListUpTo n) {op : LinkitOp}
    (hop : s.Permits op ∧ s.Meets op) :
    ∃ s', linkitStep fuel s op = some s' ∧ s'.ListUpTo (n + 1) := by
  obtain ⟨as, h, hlength⟩ := h
  have hkeep : ∀ {s' : Linkit}, s'.ListUpTo as.length → s'.ListUpTo (n + 1) := by
    rintro s' ⟨bs, hbs, hle⟩
    exact ⟨bs, hbs, by omega⟩
  have hsame : s.ListUpTo (n + 1) := ⟨as, h, by omega⟩
  obtain ⟨hpermit, hmeet⟩ := hop
  cases op with
  | insertHead data malloc =>
    cases malloc with
    | none => exact ⟨s, rfl, hsame⟩
    | some a =>
      obtain ⟨s', hs', hlist⟩ := h.insertHead (hpermit a rfl) data
      exact ⟨s', by rw [linkitStep, hs']; rfl, _, hlist, by simpa using hlength⟩
  | insertTail data malloc =>
    cases malloc with
    | none => exact ⟨s, rfl, hsame⟩
    | some a =>
      obtain ⟨s', hs', hlist⟩ := h.insertTail (hpermit a rfl) data
      exact ⟨s', by rw [linkitStep, hs']; rfl, _, hlist, by simpa using hlength⟩
  | insertPrev data malloc =>
    exact ⟨s, by rw [linkitStep, insertPrev_refused hmeet]; rfl, hsame⟩
  | insertNext data malloc =>
    exact ⟨s, by rw [linkitStep, insertNext_refused hmeet]; rfl, hsame⟩
  | dataRemove data =>
    obtain ⟨r, s', hs', hlist⟩ := h.dataRemove (by omega : as.length ≤ fuel) data
    exact ⟨s', by rw [linkitStep, hs']; rfl, hkeep hlist⟩
  | removeCurrent =>
    obtain ⟨s', hs', hlist⟩ := h.removeCurrent
    exact ⟨s', hs', hkeep hlist⟩
  | removePrev =>
    obtain ⟨s', hs', hlist⟩ := h.removePrev
    exact ⟨s', hs', hkeep hlist⟩
  | removeNext =>
    obtain ⟨s', hs', hlist⟩ := h.removeNext
    exact ⟨s', hs', hkeep hlist⟩
  | listSort isAscending =>
    obtain ⟨s', hs', hlist⟩ := h.listSort (by omega : as.length ≤ fuel) isAscending
    refine ⟨s', by rw [linkitStep, hs']; rfl, _, hlist, ?_⟩
    rw [stableSort, List.length_insertionSort]
    omega
  | listDestroy =>
    obtain ⟨s', hs', hlist⟩ := h.listDestroy hmeet fuel
    exact ⟨s', by rw [linkitStep, hs']; rfl, as, hlist, by omega⟩
  | moveHead => exact ⟨_, rfl, as, h.moveHead, by omega⟩
  | moveTail => exact ⟨_, rfl, as, h.moveTail, by omega⟩
  | movePrev =>
    obtain ⟨s', hs', hlist⟩ := h.movePrev
    exact ⟨s', hs', as, hlist, by omega⟩
  | moveNext =>
    obtain ⟨s', hs', hlist⟩ := h.moveNext
    exact ⟨s', hs', as, hlist, by omega⟩

end Step

/-- Every run whose commands meet their conditions ends, dereferences nothing it must
not, and arrives at a well-formed list. -/
theorem linkit_run_wellFormed (ops : List LinkitOp) {fuel : ℕ} (hfuel : ops.length ≤ fuel)
    (hops : Along (linkitStep fuel) (fun s op => s.Permits op ∧ s.Meets op) listInit ops) :
    ∃ s, runFrom (linkitStep fuel) listInit ops = some s ∧ s.WellFormed := by
  have hinit : listInit.ListUpTo 0 := ⟨[], listOf_init, le_rfl⟩
  have hstep : ∀ n (s : Linkit) op, n < fuel → s.ListUpTo n → s.Permits op ∧ s.Meets op →
      ∃ s', linkitStep fuel s op = some s' ∧ s'.ListUpTo (n + 1) := by
    intro n s op hn hlist hop
    exact linkitStep_listUpTo hn hlist hop
  obtain ⟨s, hs, as, has, -⟩ := exists_runFrom_counted hstep (by omega) hinit hops
  exact ⟨s, hs, as, has⟩

theorem linkit_run_wellFormed_example :
    ∃ s, runFrom (linkitStep 4) listInit
        [.insertTail 3 (some 10), .insertTail 1 (some 11), .listSort true, .dataRemove 3] = some s ∧
      s.WellFormed := by
  apply linkit_run_wellFormed _ (by decide)
  refine ⟨⟨fun a _ => rfl, trivial⟩, ?_⟩
  rintro _ ⟨⟩
  refine ⟨⟨?_, trivial⟩, fun _ _ => ⟨⟨trivial, trivial⟩, fun _ _ => ⟨⟨trivial, trivial⟩, ?_⟩⟩⟩
  · rintro a ⟨⟩
    rfl
  · intro s _
    trivial

/-- A node added after the cursor is not counted. -/
theorem linkit_run_not_wellFormed :
    ∃ s, runFrom (linkitStep 2) listInit [.insertHead 1 (some 10), .insertNext 2 (some 11)] =
      some s ∧ ¬ s.WellFormed := by
  refine ⟨_, rfl, ?_⟩
  rintro ⟨as, h⟩
  have h10 := h.live 10 rfl
  have h11 := h.live 11 rfl
  have hlength : as.length = 1 := by
    have hcount : (0 : ℤ) + 1 = as.length := h.counted
    omega
  obtain ⟨a, rfl⟩ := List.length_eq_one_iff.mp hlength
  simp at h10 h11
  omega

end MorningProjects.LinkedList
