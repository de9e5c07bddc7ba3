import MorningProjects.Semaphore.SemWrapper
import MorningProjects.Library.Counter
import MorningProjects.Library.Runs

/-!
# Accounting over any interleaving

A wait that meets no error takes one from the counter and unlocks the mutex. The
other two wait functions report an error after every successful unlock, and
leave the mutex locked on every other path; and every semaphore has the one
counter of all. Away from these cases every critical section keeps the accounts.
-/
namespace MorningProjects.Semaphore
open Library

variable {T S : Type*}

def Return.Truthful (r : Return S) : Prop := r.status = 0 ↔ r.after.toNat + 1 = r.before.toNat

instance (r : Return S) : Decidable r.Truthful :=
  inferInstanceAs (Decidable (r.status = 0 ↔ r.after.toNat + 1 = r.before.toNat))

namespace SemState

/-- With no call in progress the mutex is free, waits report what they did, and the value of
each semaphore is its initial value and its successful posts less its successful waits. -/
structure Accounted (s : SemState T S) : Prop where
  free : s.Quiet → s.mutex = none
  truthful : ∀ r ∈ s.returned, r.Truthful
  balance : ∀ sem v, s.initial sem = some v →
    s.waits sem ≤ v + s.posts sem ∧ s.value.toNat = v + s.posts sem - s.waits sem

def Lone (s : SemState T S) (sem : S) : Prop := ∀ sem', (s.initial sem').isSome → sem' = sem

/-- A thread does not take from the counter of several semaphores or past its greatest value,
meets no error, and does not get past the loops of `sem_wrapper_trywait` and
`sem_wrapper_timedwait`. -/
def Meets (s : SemState T S) : Action T S → Prop
  | .call _ _ _ => True
  | .enter i =>
    match s.phase i with
    | .calling .wait sem => s.value ≠ 0 → s.Lone sem
    | .calling (.post _) sem => s.Lone sem ∧ s.value.toNat + 1 < UInt32.size
    | .calling _ _ => s.value = 0
    | _ => True
  | .wake i result =>
    match s.phase i with
    | .waiting .wait sem => result = 0 ∧ (s.value ≠ 0 → s.Lone sem)
    | .waiting _ _ => result = 0 ∧ s.value = 0
    | _ => True

end SemState

/-! ### Critical sections -/

theorem wait_loop (value : UInt32) : semWrapperWait.loop 0 0 value =
    if value = 0 then .waits else .returns 0 (value - 1) false := rfl

theorem wait_enter (value : UInt32) : Call.wait.enter value =
    if value = 0 then .waits else .returns 0 (value - 1) false := by
  rw [Call.enter, WaitFunction.enter, if_pos (by decide)]
  exact wait_loop value

theorem wait_wake (value : UInt32) : Call.wait.wake 0 value =
    some (if value = 0 then .waits else .returns 0 (value - 1) false) := by
  rw [Call.wake, WaitFunction.wake, if_neg (by simp [semWrapperWait])]
  exact congrArg some (wait_loop value)

theorem post_enter (broadcast : ℕ) (value : UInt32) :
    (Call.post broadcast).enter value = .returns 0 (value + 1) false := by
  rw [Call.enter, semWrapperPost, if_pos (by decide), if_pos (by omega), if_neg (by decide)]
  rfl

namespace SemState

variable {s s' : SemState T S}

/-- A critical section without an error: it ends in a condition wait, or counts a post or a
wait of the only semaphore. -/
inductive Regular (s : SemState T S) (sem : S) : Call → Section → Prop
  | waits (call : Call) : s.Regular sem call .waits
  | posted (broadcast : ℕ) (hlone : s.Lone sem) (hroom : s.value.toNat + 1 < UInt32.size) :
      s.Regular sem (.post broadcast) (.returns 0 (s.value + 1) false)
  | taken (hlone : s.Lone sem) (hpos : s.value ≠ 0) :
      s.Regular sem .wait (.returns 0 (s.value - 1) false)

theorem regular_take {sem : S} (h : s.value ≠ 0 → s.Lone sem) :
    s.Regular sem .wait (if s.value = 0 then .waits else .returns 0 (s.value - 1) false) := by
  by_cases hv : s.value = 0
  · rw [if_pos hv]
    exact .waits _
  · rw [if_neg hv]
    exact .taken (h hv) hv

theorem regular_enter {i : T} {call : Call} {sem : S} (hp : s.phase i = .calling call sem)
    (h : s.Meets (.enter i)) : s.Regular sem call (call.enter s.value) := by
  rw [Meets, hp] at h
  cases call with
  | wait =>
    rw [wait_enter]
    exact regular_take h
  | trywait =>
    rw [show s.value = 0 from h]
    exact .waits _
  | timedwait =>
    rw [show s.value = 0 from h]
    exact .waits _
  | post broadcast =>
    rw [post_enter]
    exact .posted broadcast h.1 h.2

theorem regular_wake {i : T} {result : ℕ} {call : Call} {sem : S} {sec : Section}
    (hp : s.phase i = .waiting call sem) (h : s.Meets (.wake i result))
    (hsec : call.wake result s.value = some sec) : s.Regular sem call sec := by
  rw [Meets, hp] at h
  cases call with
  | wait =>
    obtain ⟨rfl, hlone⟩ := h
    obtain rfl := Option.some.inj ((wait_wake s.value).symm.trans hsec)
    exact regular_take hlone
  | trywait =>
    obtain ⟨rfl, hv⟩ := h
    rw [hv] at hsec
    cases hsec
    exact .waits _
  | timedwait =>
    obtain ⟨rfl, hv⟩ := h
    rw [hv] at hsec
    cases hsec
    exact .waits _
  | post broadcast => cases hsec

/-! ### The accounts -/

/-- The invariant: the mutex is free between critical sections, and the accounts are kept. -/
structure Balanced (s : SemState T S) : Prop where
  free : s.mutex = none
  truthful : ∀ r ∈ s.returned, r.Truthful
  balance : ∀ sem v, s.initial sem = some v → s.value.toNat + s.waits sem = v + s.posts sem

theorem Balanced.accounted (h : s.Balanced) : s.Accounted := by
  constructor
  · intro _
    exact h.free
  · exact h.truthful
  · intro sem v hv
    have heq := h.balance sem v hv
    omega

/-- The counter and all semaphores initialised so far have the value `w`, and nothing has
been counted. -/
structure Started (w : UInt32) (s : SemState T S) : Prop where
  free : s.mutex = none
  returned : s.returned = []
  counts : s.posts = (fun _ => 0) ∧ s.waits = fun _ => 0
  initial : ∀ sem v, s.initial sem = some v → v = w.toNat ∧ s.value = w

theorem Started.balanced {w : UInt32} (h : s.Started w) : s.Balanced := by
  constructor
  · exact h.free
  · simp [h.returned]
  · intro sem v hv
    obtain ⟨rfl, hw⟩ := h.initial sem v hv
    rw [h.counts.1, h.counts.2, hw]

section Init

variable [DecidableEq S]

theorem init_eq (s : SemState T S) (sem : S) (value : UInt32) :
    s.init sem value =
      { s with value := value, initial := Function.update s.initial sem (some value.toNat) } := rfl

theorem Started.init {w : UInt32} (h : s.Started w) (sem : S) : (s.init sem w).Started w := by
  refine ⟨h.free, h.returned, h.counts, ?_⟩
  intro sem' v hv
  rw [init_eq] at hv ⊢
  dsimp only at hv ⊢
  by_cases heq : sem' = sem
  · subst heq
    rw [Function.update_self] at hv
    exact ⟨(Option.some.inj hv).symm, rfl⟩
  · rw [Function.update_of_ne heq] at hv
    exact ⟨(h.initial sem' v hv).1, rfl⟩

theorem balanced_initAll {inits : List (S × UInt32)}
    (hsame : ∀ p ∈ inits, ∀ q ∈ inits, p.2 = q.2) :
    (initAll inits : SemState T S).Balanced := by
  have hstart : ∀ w (s : SemState T S), s.Started w → (∀ p ∈ inits, p.2 = w) →
      (inits.foldl (fun s p => s.init p.1 p.2) s).Started w := by
    intro w s hs hw
    apply List.foldlRecOn inits _ hs
    intro s hs p hp
    rw [hw p hp]
    exact hs.init p.1
  cases inits with
  | nil => exact (hstart 0 new ⟨rfl, rfl, ⟨rfl, rfl⟩, fun _ _ h => by cases h⟩ (by simp)).balanced
  | cons p inits =>
    apply (hstart p.2 new ⟨rfl, rfl, ⟨rfl, rfl⟩, fun _ _ h => by cases h⟩ _).balanced
    intro q hq
    exact hsame q hq p List.mem_cons_self

end Init

variable [DecidableEq T] [DecidableEq S]

/-- A step within the condition starts a call or is a critical section without an error. -/
theorem semStep_cases {a : Action T S} (hm : s.Meets a) (h : semStep s a = some s') :
    (∃ i p, s' = { s with phase := Function.update s.phase i p }) ∨
      ∃ i call sem sec, s.Regular sem call sec ∧ s' = s.leave i call sem sec := by
  cases a with
  | call i call sem =>
    rw [semStep] at h
    split_ifs at h
    cases h
    exact .inl ⟨i, _, rfl⟩
  | enter i =>
    rw [semStep] at h
    split at h
    · rename_i call sem hp _
      cases h
      exact .inr ⟨i, call, sem, _, regular_enter hp hm, rfl⟩
    · cases h
  | wake i result =>
    rw [semStep] at h
    split at h
    · rename_i call sem hp _
      obtain ⟨sec, hsec, rfl⟩ := Option.map_eq_some_iff.mp h
      exact .inr ⟨i, call, sem, sec, regular_wake hp hm hsec, rfl⟩
    · cases h

theorem Balanced.leave (h : s.Balanced) (i : T) {call : Call} {sem : S} {sec : Section}
    (hsec : s.Regular sem call sec) : (s.leave i call sem sec).Balanced := by
  cases hsec with
  | waits => exact ⟨h.free, h.truthful, h.balance⟩
  | posted broadcast hlone hroom =>
    refine ⟨rfl, h.truthful, ?_⟩
    intro sem' v hv
    obtain rfl := hlone sem' (Option.isSome_of_mem hv)
    change (s.value + 1).toNat + s.waits sem' =
      v + Function.update s.posts sem' (s.posts sem' + 1) sem'
    rw [Function.update_self, toNat_succ hroom]
    have heq := h.balance sem' v hv
    omega
  | taken hlone hpos =>
    refine ⟨rfl, ?_, ?_⟩
    · intro r hr
      rcases List.mem_cons.mp hr with rfl | hr
      · exact iff_of_true rfl (toNat_pred (toNat_pos hpos))
      · exact h.truthful r hr
    · intro sem' v hv
      obtain rfl := hlone sem' (Option.isSome_of_mem hv)
      change (s.value - 1).toNat + Function.update s.waits sem' (s.waits sem' + 1) sem' =
        v + s.posts sem'
      rw [Function.update_self]
      have heq := h.balance sem' v hv
      have hpred := toNat_pred (toNat_pos hpos)
      omega

theorem Balanced.step {a : Action T S} (h : s.Balanced) (hm : s.Meets a)
    (hs : semStep s a = some s') : s'.Balanced := by
  rcases semStep_cases hm hs with ⟨i, p, rfl⟩ | ⟨i, call, sem, sec, hsec, rfl⟩
  · exact ⟨h.free, h.truthful, h.balance⟩
  · exact h.leave i hsec

end SemState

variable [DecidableEq T] [DecidableEq S]

/-- In every run of any threads on semaphores initialised with the same value whose critical
sections stay within the condition, every state reached is accounted for. -/
theorem sem_run_accounted (inits : List (S × UInt32))
    (hsame : ∀ p ∈ inits, ∀ q ∈ inits, p.2 = q.2) (actions : List (Action T S))
    (hmeets : Along semStep SemState.Meets (.initAll inits) actions) {s : SemState T S}
    (hrun : runFrom semStep (.initAll inits) actions = some s) : s.Accounted := by
  have hstep : ∀ (s : SemState T S) a s', s.Balanced → s.Meets a → semStep s a = some s' →
      s'.Balanced := fun s a s' h hm hs => h.step hm hs
  exact (runFrom_invariant hstep (SemState.balanced_initAll hsame) hmeets hrun).accounted

def waking : List (Action Bool Unit) :=
  [.call false .wait (), .enter false, .call true (.post 0) (), .enter true, .wake false 0]

theorem sem_run_accounted_example :
    ∃ s, runFrom semStep (.initAll [((), 0)]) waking = some s ∧ s.Accounted := by
  refine ⟨_, rfl, sem_run_accounted [((), 0)] (by simp) waking ?_ rfl⟩
  refine ⟨trivial, ?_⟩
  rintro _ ⟨⟩
  refine ⟨fun h => absurd rfl h, ?_⟩
  rintro _ ⟨⟩
  refine ⟨trivial, ?_⟩
  rintro _ ⟨⟩
  refine ⟨⟨fun _ _ => rfl, by decide⟩, ?_⟩
  rintro _ ⟨⟩
  refine ⟨⟨rfl, fun _ _ _ => rfl⟩, ?_⟩
  rintro _ ⟨⟩
  trivial

/-- `sem_wrapper_trywait` takes one from the counter and returns -1; `sem_wrapper_timedwait`
takes nothing and leaves the mutex locked; a post reaches another semaphore. -/
theorem sem_run_not_accounted :
    (∃ s, runFrom semStep (.initAll [((), 1)]) [.call () .trywait (), .enter ()] = some s ∧
      ¬ s.Accounted) ∧
    (∃ s, runFrom semStep (.initAll [((), 1)]) [.call () .timedwait (), .enter ()] = some s ∧
      ¬ s.Accounted) ∧
    ∃ s, runFrom semStep (.initAll [(false, 0), (true, 0)])
      [.call () (.post 0) false, .enter ()] = some s ∧ ¬ s.Accounted := by
  refine ⟨⟨_, rfl, ?_⟩, ⟨_, rfl, ?_⟩, ⟨_, rfl, ?_⟩⟩
  · intro h
    exact absurd (h.truthful ⟨(), -1, 1, 0⟩ List.mem_cons_self) (by decide)
  · intro h
    cases h.free (fun _ => rfl)
  · intro h
    exact absurd (h.balance true 0 rfl).2 (by decide)

end MorningProjects.Semaphore
