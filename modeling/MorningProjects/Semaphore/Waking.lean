import MorningProjects.Semaphore.Users
import Mathlib.Logic.Relation

/-!
# No waiting thread is forgotten

Threads that wait only while they hold nothing and post what they hold share one
semaphore. A broadcast wakes all that wait, and a thread goes to sleep only at 0;
so while the counter is above 0 nobody who waits is asleep.
-/
namespace MorningProjects.Semaphore
open Library

variable {T S : Type*}

namespace Users

/-- Threads wait while they hold nothing, post what they hold, and no condition wait or broadcast
fails; a condition wait may return without a broadcast. -/
def Proper (u : Users T S) : Action T S → Prop
  | .call i .wait _ => ∀ p ∈ u.held, p.1 ≠ i
  | .call i (.post broadcast) sem => broadcast = 0 ∧ (i, sem) ∈ u.held
  | .call _ _ _ => False
  | .enter _ => True
  | .wake _ result => result = 0

/-- What threads do by themselves that start no new wait: a condition wait returns to a thread
that was woken. -/
def Willing (u : Users T S) : Action T S → Prop
  | .call i (.post broadcast) sem => broadcast = 0 ∧ (i, sem) ∈ u.held
  | .call _ _ _ => False
  | .enter _ => True
  | .wake i result => result = 0 ∧ u.asleep i = false

theorem Willing.proper {u : Users T S} {a : Action T S} (h : u.Willing a) : u.Proper a := by
  cases a with
  | call i call sem =>
    cases call with
    | post broadcast => exact h
    | _ => exact h.elim
  | enter i => trivial
  | wake i result => exact h.1

inductive Engaged (u : Users T S) (sem : S) (i : T) : Prop
  | idle (h : u.sems.phase i = .idle)
  | waits (h : u.sems.phase i = .calling .wait sem) (hheld : ∀ p ∈ u.held, p.1 ≠ i)
  | sleeps (h : u.sems.phase i = .waiting .wait sem) (hheld : ∀ p ∈ u.held, p.1 ≠ i)
    (hawake : u.sems.value ≠ 0 → u.asleep i = false)
  | posts (h : u.sems.phase i = .calling (.post 0) sem) (hheld : (i, sem) ∈ u.held)

/-- The invariant: all of `w` is held or shown by the counter of the one semaphore, and whoever
sleeps does so at 0. -/
structure Attended (w : ℕ) (sem : S) (u : Users T S) : Prop where
  free : u.sems.mutex = none
  lone : u.sems.Lone sem
  known : (u.sems.initial sem).isSome
  total : u.held.length + u.sems.value.toNat = w
  held : ∀ p ∈ u.held, p.2 = sem
  engaged : ∀ i, u.Engaged sem i

end Users

variable [DecidableEq T] [DecidableEq S]

instance (u : Users T S) (a : Action T S) : Decidable (u.Proper a) :=
  match a with
  | .call i .wait _ => inferInstanceAs (Decidable (∀ p ∈ u.held, p.1 ≠ i))
  | .call i (.post broadcast) sem =>
    inferInstanceAs (Decidable (broadcast = 0 ∧ (i, sem) ∈ u.held))
  | .call _ .trywait _ | .call _ .timedwait _ => isFalse id
  | .enter _ => isTrue trivial
  | .wake _ result => inferInstanceAs (Decidable (result = 0))

namespace Users.Attended

variable {u u' : Users T S} {w : ℕ} {sem : S} {i j : T} {a : Action T S}

omit [DecidableEq T] [DecidableEq S] in
theorem section_cases (h : u.Attended w sem) (hp : u.Proper a) {call : Call} {sem' : S}
    {sec : Section} (hsec : u.sems.criticalSection a = some (i, call, sem', sec)) :
    sem' = sem ∧
      ((call = .wait ∧ (∀ p ∈ u.held, p.1 ≠ i) ∧
        sec = if u.sems.value = 0 then .waits else .returns 0 (u.sems.value - 1) false) ∨
      (call = .post 0 ∧ (i, sem) ∈ u.held ∧ sec = .returns 0 (u.sems.value + 1) false)) := by
  have hengaged := h.engaged i
  rcases Semaphore.section_cases hsec with ⟨-, hphase, rfl⟩ | ⟨result, rfl, hphase, hwake⟩
  · cases hengaged with
    | idle hi | sleeps hi =>
      rw [hphase] at hi
      cases hi
    | waits hi hheld =>
      rw [hphase] at hi
      cases hi
      exact ⟨rfl, .inl ⟨rfl, hheld, wait_enter _⟩⟩
    | posts hi hheld =>
      rw [hphase] at hi
      cases hi
      exact ⟨rfl, .inr ⟨rfl, hheld, post_enter 0 _⟩⟩
  · cases hengaged with
    | idle hi | waits hi | posts hi =>
      rw [hphase] at hi
      cases hi
    | sleeps hi hheld =>
      rw [hphase] at hi
      cases hi
      rw [show result = 0 from hp, wait_wake] at hwake
      exact ⟨rfl, .inl ⟨rfl, hheld, (Option.some.inj hwake).symm⟩⟩

omit [DecidableEq T] [DecidableEq S] in
theorem engaged_other (h : u.Engaged sem j) (hj : j ≠ i)
    (hphase : u'.sems.phase j = u.sems.phase j)
    (hheld : ∀ p, p.1 ≠ i → (p ∈ u'.held ↔ p ∈ u.held))
    (hawake : u.sems.phase j = .waiting .wait sem → (u.sems.value ≠ 0 → u.asleep j = false) →
      u'.sems.value ≠ 0 → u'.asleep j = false) : u'.Engaged sem j := by
  have hnone : (∀ p ∈ u.held, p.1 ≠ j) → ∀ p ∈ u'.held, p.1 ≠ j := by
    intro hu p hp heq
    have hpi : p.1 ≠ i := fun hpi => hj (heq.symm.trans hpi)
    exact hu p ((hheld p hpi).mp hp) heq
  cases h with
  | idle hi => exact .idle (hphase.trans hi)
  | waits hi hu => exact .waits (hphase.trans hi) (hnone hu)
  | sleeps hi hu ha => exact .sleeps (hphase.trans hi) (hnone hu) (hawake hi ha)
  | posts hi hu => exact .posts (hphase.trans hi) ((hheld (j, sem) hj).mpr hu)

omit [DecidableEq S] in
theorem startCall (h : u.Attended w sem) {call : Call} {sem' : S}
    (hp : u.Proper (.call i call sem')) (hsome : (u.sems.initial sem').isSome) :
    Users.Attended w sem { u with sems := { u.sems with
      phase := Function.update u.sems.phase i (.calling call sem') } } := by
  obtain rfl := h.lone sem' hsome
  refine ⟨h.free, h.lone, h.known, h.total, h.held, ?_⟩
  intro j
  by_cases hj : j = i
  · subst hj
    cases call with
    | wait => exact .waits (Function.update_self ..) hp
    | post broadcast =>
      obtain ⟨rfl, hheld⟩ := hp
      exact .posts (Function.update_self ..) hheld
    | _ => exact hp.elim
  · apply engaged_other (h.engaged j) hj
    · exact Function.update_of_ne hj _ _
    · intro p _
      rfl
    · exact fun _ ha => ha

theorem sleep (h : u.Attended w sem) (hzero : u.sems.value = 0) (hheld : ∀ p ∈ u.held, p.1 ≠ i) :
    (u.leave i .wait sem .waits).Attended w sem := by
  refine ⟨h.free, h.lone, h.known, h.total, h.held, ?_⟩
  intro j
  by_cases hj : j = i
  · subst hj
    exact .sleeps (Function.update_self ..) hheld fun hne => absurd hzero hne
  · apply engaged_other (h.engaged j) hj
    · exact Function.update_of_ne hj _ _
    · exact fun p hp => Iff.rfl
    · exact fun _ _ hne => absurd hzero hne

/-- A thread takes what the counter shows. -/
theorem take (h : u.Attended w sem) (hpos : u.sems.value ≠ 0) :
    (u.leave i .wait sem (.returns 0 (u.sems.value - 1) false)).Attended w sem := by
  have hpred := toNat_pred (toNat_pos hpos)
  have htotal := h.total
  refine ⟨by simp [Users.leave], ?_, ?_, ?_, ?_, ?_⟩
  · rw [Users.leave, SemState.Lone, leave_initial]
    exact h.lone
  · rw [Users.leave, leave_initial]
    exact h.known
  · simp [Users.leave, Users.heldAfter, Call.isPost]
    omega
  · intro p hp
    rcases List.mem_cons.mp hp with rfl | hp
    · rfl
    · exact h.held p hp
  · intro j
    by_cases hj : j = i
    · subst hj
      apply Engaged.idle
      simp [Users.leave, leave_phase]
    · apply engaged_other (h.engaged j) hj
      · simp [Users.leave, leave_phase, hj]
      · exact fun p hp => mem_held_leave i .wait sem u hp
      · intro _ ha _
        simpa [Users.leave, Users.wakened, hj] using ha hpos

/-- A thread gives back what it held, and wakes all that wait. -/
theorem give (h : u.Attended w sem) (hw : w < UInt32.size) (hmem : (i, sem) ∈ u.held) :
    (u.leave i (.post 0) sem (.returns 0 (u.sems.value + 1) false)).Attended w sem := by
  have hlength := List.length_erase_add_one hmem
  have htotal := h.total
  have hroom : u.sems.value.toNat + 1 < 2 ^ 32 := by
    change w < 2 ^ 32 at hw
    omega
  refine ⟨by simp [Users.leave], ?_, ?_, ?_, ?_, ?_⟩
  · rw [Users.leave, SemState.Lone, leave_initial]
    exact h.lone
  · rw [Users.leave, leave_initial]
    exact h.known
  · simp [Users.leave, Users.heldAfter, Call.isPost, toNat_succ hroom]
    omega
  · intro p hp
    exact h.held p (List.mem_of_mem_erase hp)
  · intro j
    by_cases hj : j = i
    · subst hj
      apply Engaged.idle
      simp [Users.leave, leave_phase]
    · apply engaged_other (h.engaged j) hj
      · simp [Users.leave, leave_phase, hj]
      · exact fun p hp => mem_held_leave i (.post 0) sem u hp
      · intro hphase _ _
        simp [Users.leave, Users.wakened, hj, hphase, Phase.waitsFor]

theorem step (h : u.Attended w sem) (hw : w < UInt32.size) (hp : u.Proper a)
    (hs : userStep u a = some u') : u'.Attended w sem := by
  rcases userStep_cases hs with
    ⟨i, call, sem', rfl, -, hsome, rfl⟩ | ⟨i, call, sem', sec, hsec, -, rfl⟩
  · exact h.startCall hp hsome
  · obtain ⟨rfl, ⟨rfl, hheld, rfl⟩ | ⟨rfl, hheld, rfl⟩⟩ := h.section_cases hp hsec
    · by_cases hzero : u.sems.value = 0
      · rw [if_pos hzero]
        exact h.sleep hzero hheld
      · rw [if_neg hzero]
        exact h.take hzero
    · exact h.give hw hheld

end Users.Attended

/-! ### A schedule for a waiting thread -/

namespace Users

/-- The threads go on by themselves, and start no new wait. -/
def GoesOn : Users T S → Users T S → Prop :=
  Relation.ReflTransGen fun u u' => ∃ a, u.Willing a ∧ userStep u a = some u'

variable {u u' : Users T S} {w : ℕ} {sem : S} {i j : T} {call : Call}

theorem GoesOn.single {a : Action T S} (ha : u.Willing a) (hs : userStep u a = some u') :
    GoesOn u u' :=
  Relation.ReflTransGen.single ⟨a, ha, hs⟩

theorem step_enter (hphase : u.sems.phase i = .calling call sem) (hfree : u.sems.mutex = none) :
    userStep u (.enter i) = some (u.leave i call sem (call.enter u.sems.value)) := by
  simp only [userStep, semStep, SemState.criticalSection, hphase, hfree, Option.map_some]

theorem step_wake {result : ℕ} {sec : Section} (hphase : u.sems.phase i = .waiting call sem)
    (hfree : u.sems.mutex = none) (hwake : call.wake result u.sems.value = some sec) :
    userStep u (.wake i result) = some (u.leave i call sem sec) := by
  simp only [userStep, semStep, SemState.criticalSection, hphase, hfree, hwake, Option.map_some]

theorem step_call (hphase : u.sems.phase i = .idle) (hsome : (u.sems.initial sem).isSome) :
    userStep u (.call i call sem) = some { u with sems := { u.sems with
      phase := Function.update u.sems.phase i (.calling call sem) } } := by
  rw [userStep, semStep, if_pos ⟨hphase, hsome⟩]
  rfl

def Awaits (u : Users T S) (i : T) (sem : S) : Prop :=
  u.sems.phase i = .calling .wait sem ∨ u.sems.phase i = .waiting .wait sem

/-- Above 0 a thread that waits can take one at once. -/
theorem Attended.exists_taken (h : u.Attended w sem) (hpos : u.sems.value ≠ 0)
    (hi : u.Awaits i sem) : ∃ u', GoesOn u u' ∧ (i, sem) ∈ u'.held := by
  refine ⟨u.leave i .wait sem (.returns 0 (u.sems.value - 1) false), ?_, List.mem_cons_self⟩
  rcases hi with hphase | hphase
  · have henter := step_enter hphase h.free
    rw [wait_enter, if_neg hpos] at henter
    exact .single (a := .enter i) trivial henter
  · have hasleep : u.asleep i = false := by
      cases h.engaged i with
      | idle hi | waits hi | posts hi =>
        rw [hphase] at hi
        cases hi
      | sleeps _ _ hawake => exact hawake hpos
    have hwake := wait_wake u.sems.value
    rw [if_neg hpos] at hwake
    exact .single (a := .wake i 0) ⟨rfl, hasleep⟩ (step_wake hphase h.free hwake)

/-- A holder can post, and the others stay where they are. -/
theorem Attended.exists_given (h : u.Attended w sem) (hw : w < UInt32.size)
    (hmem : (j, sem) ∈ u.held) :
    ∃ u', GoesOn u u' ∧ u'.Attended w sem ∧ u'.sems.value = u.sems.value + 1 ∧
      ∀ i, i ≠ j → u'.sems.phase i = u.sems.phase i := by
  have hpost : ∀ u : Users T S, u.Attended w sem → (j, sem) ∈ u.held →
      u.sems.phase j = .calling (.post 0) sem →
      ∃ u', GoesOn u u' ∧ u'.Attended w sem ∧ u'.sems.value = u.sems.value + 1 ∧
        ∀ i, i ≠ j → u'.sems.phase i = u.sems.phase i := by
    intro u h hmem hphase
    have henter := step_enter hphase h.free
    rw [post_enter] at henter
    refine ⟨_, .single (a := .enter j) trivial henter, h.give hw hmem, ?_, ?_⟩
    · simp [Users.leave]
    · intro i hi
      simp [Users.leave, leave_phase, hi]
  cases h.engaged j with
  | idle hj =>
    have hcall : userStep u (.call j (.post 0) sem) = some _ := step_call hj h.known
    have hstart := h.step hw (a := .call j (.post 0) sem) ⟨rfl, hmem⟩ hcall
    obtain ⟨u', hgoes, hattended, hvalue, hphase⟩ :=
      hpost _ hstart hmem (Function.update_self ..)
    refine ⟨u', ?_, hattended, hvalue, ?_⟩
    · exact hgoes.head ⟨.call j (.post 0) sem, ⟨rfl, hmem⟩, hcall⟩
    · intro i hi
      rw [hphase i hi]
      exact Function.update_of_ne hi _ _
  | waits _ hheld | sleeps _ hheld => exact absurd rfl (hheld (j, sem) hmem)
  | posts hj => exact hpost u h hmem hj

end Users

omit [DecidableEq T] in
theorem isSome_initAll {inits : List (S × UInt32)} {sem : S}
    (h : ((SemState.initAll inits : SemState T S).initial sem).isSome) :
    ∃ p ∈ inits, p.1 = sem := by
  induction inits using List.reverseRecOn with
  | nil => cases h
  | append_singleton inits p ih =>
    by_cases hp : p.1 = sem
    · exact ⟨p, by simp, hp⟩
    · rw [SemState.initAll, List.foldl_append, List.foldl_cons, List.foldl_nil,
        SemState.init_eq] at h
      dsimp only at h
      rw [Function.update_of_ne (Ne.symm hp)] at h
      obtain ⟨q, hq, heq⟩ := ih h
      exact ⟨q, by simp [hq], heq⟩

/-- From every state that threads reach which wait while they hold nothing and post what they hold,
a thread that waits can get the semaphore, by posts of those who hold it and wake-ups by broadcasts
alone: none is lost. -/
theorem sem_run_progress (inits : List (S × UInt32)) (sem : S) {w : UInt32}
    (hlone : ∀ p ∈ inits, p.1 = sem) (hw : w ≠ 0) (actions : List (Action T S))
    (hproper : Along userStep Users.Proper (.start (inits ++ [(sem, w)])) actions) {u : Users T S}
    (hrun : runFrom userStep (.start (inits ++ [(sem, w)])) actions = some u) {i : T}
    (hi : u.Awaits i sem) : ∃ u', Users.GoesOn u u' ∧ (i, sem) ∈ u'.held := by
  obtain ⟨-, hfree, hquiet⟩ := unused_initAll (T := T) (inits ++ [(sem, w)])
  have hstart : (Users.start (inits ++ [(sem, w)]) : Users T S).Attended w.toNat sem := by
    refine ⟨hfree, ?_, ?_, ?_, ?_, fun i => .idle (hquiet i)⟩
    · intro sem' hsome
      obtain ⟨p, hp, rfl⟩ := isSome_initAll hsome
      rcases List.mem_append.mp hp with hp | hp
      · exact hlone p hp
      · rw [List.mem_singleton.mp hp]
    · rw [Users.start, SemState.initAll, List.foldl_append, List.foldl_cons, List.foldl_nil,
        SemState.init_eq]
      simp
    · simp [Users.start, value_initAll]
    · intro p hp
      cases hp
  have hstep : ∀ (u : Users T S) a u', u.Attended w.toNat sem → u.Proper a →
      userStep u a = some u' → u'.Attended w.toNat sem := by
    intro u a u' h hp hs
    exact h.step w.toNat_lt_size hp hs
  have h := runFrom_invariant hstep hstart hproper hrun
  by_cases hzero : u.sems.value = 0
  · have hpos := toNat_pos hw
    have htotal := h.total
    rw [hzero] at htotal
    obtain ⟨p, hp⟩ := List.exists_mem_of_length_pos (by rw [← htotal] at hpos; exact hpos)
    have hsem := h.held p hp
    have hmem : (p.1, sem) ∈ u.held := by rwa [← hsem]
    have hne : i ≠ p.1 := by
      rintro rfl
      cases h.engaged p.1 with
      | idle hj | posts hj => rcases hi with hi | hi <;> rw [hj] at hi <;> cases hi
      | waits _ hheld | sleeps _ hheld => exact hheld p hp rfl
    obtain ⟨u₁, hgoes, hattended, hvalue, hphase⟩ := h.exists_given w.toNat_lt_size hmem
    have hi₁ : u₁.Awaits i sem := by
      rw [Users.Awaits, hphase i hne]
      exact hi
    obtain ⟨u₂, hgoes₂, hheld⟩ := hattended.exists_taken (by simp [hvalue, hzero]) hi₁
    exact ⟨u₂, hgoes.trans hgoes₂, hheld⟩
  · exact h.exists_taken hzero hi

def twoWaiters : List (Action Bool Unit) :=
  [.call false .wait (), .enter false, .call true .wait (), .enter true]

/-- The second thread sleeps while the first one holds the semaphore. -/
theorem sem_run_progress_example :
    ∃ u u', runFrom userStep (.start [((), 1)]) twoWaiters = some u ∧ u.asleep true = true ∧
      u.held = [(false, ())] ∧ Users.GoesOn u u' ∧ (true, ()) ∈ u'.held := by
  obtain ⟨u', hgoes, hheld⟩ := sem_run_progress [] () (w := 1) (i := true) (by simp) (by decide)
    twoWaiters (by decide) rfl (.inr rfl)
  exact ⟨_, u', rfl, rfl, rfl, hgoes, hheld⟩

end MorningProjects.Semaphore
