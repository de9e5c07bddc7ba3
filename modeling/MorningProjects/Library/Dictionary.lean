import Mathlib.Data.List.Basic
import Mathlib.Tactic

/-!
# A dictionary as a list of entries

Keys are compared by a relation, and no two entries have keys that are the same. What is found
under a key does not depend on the order of the entries.
-/
namespace MorningProjects.Library

variable {K V : Type*} (same : K → K → Prop) [DecidableRel same]

def findEntry (key : K) (l : List (K × V)) : Option V :=
  (l.find? fun e => same e.1 key).map Prod.snd

def eraseEntry (key : K) (l : List (K × V)) : List (K × V) := l.filter fun e => ¬ same e.1 key

variable {same} {key k : K} {v : V} {l : List (K × V)}

theorem findEntry_eq_none (h : ∀ e ∈ l, ¬ same e.1 key) : findEntry same key l = none := by
  rw [findEntry, List.find?_eq_none.mpr]
  · rfl
  · intro e he
    simpa using h e he

theorem findEntry_eq_some (hmem : (k, v) ∈ l) (hk : same k key)
    (honly : ∀ e ∈ l, same e.1 key → e = (k, v)) : findEntry same key l = some v := by
  have hsome : (l.find? fun e => decide (same e.1 key)).isSome = true :=
    List.find?_isSome.mpr ⟨(k, v), hmem, decide_eq_true hk⟩
  obtain ⟨e, he⟩ := Option.isSome_iff_exists.mp hsome
  have hfound : same e.1 key := by simpa using List.find?_some he
  rw [findEntry, he, honly e (List.mem_of_find?_eq_some he) hfound]
  rfl

end MorningProjects.Library
