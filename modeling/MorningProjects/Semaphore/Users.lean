import MorningProjects.Semaphore.Run

/-!
# Who holds a semaphore

A thread holds a semaphore from a wait that returns 0 to its post. What the
threads hold and what the counter shows is together the last initial value, less
what `sem_wrapper_trywait` and `sem_wrapper_timedwait` take without saying so:
over any interleaving, with any results of the condition waits.
-/
namespace MorningProjects.Semaphore
open Library

variable {T S : Type*}

structure Users (T S : Type*) where
  sems : SemState T S
  /-- The waits that returned 0, until they are posted for. -/
  held : List (T × S)
  /-- In a condition wait without a broadcast since. -/
  asleep : T → Bool

def SemState.criticalSection (s : SemState T S) : Action T S → Option (T × Call × S × Section)
  | .call _ _ _ => none
  | .enter i =>
    match s.phase i with
    | .calling call sem => some (i, call, sem, call.enter s.value)
    | _ => none
  | .wake i result =>
    match s.phase i with
    | .waiting call sem => (call.wake result s.value).map fun sec => (i, call, sem, sec)
    | _ => none

theorem section_cases {s : SemState T S} {a : Action T S} {i : T} {call : Call} {sem : S}
    {sec : Section}
    (h : s.criticalSection a = some (i, call, sem, sec)) :
    (a = .enter i ∧ s.phase i = .calling call sem ∧ sec = call.enter s.value) ∨
    ∃ result, a = .wake i result ∧ s.phase i = .waiting call sem ∧
      call.wake result s.value = some sec := by
  cases a with
  | call => cases h
  | enter j =>
    rw [SemState.criticalSection] at h
    split at h
    · rename_i hphase
      cases h
      exact .inl ⟨rfl, hphase, rfl⟩
    · cases h
  | wake j result =>
    rw [SemState.criticalSection] at h
    split at h
    · rename_i hphase
      obtain ⟨sec', hwake, heq⟩ := Option.map_eq_some_iff.mp h
      cases heq
      exact .inr ⟨result, rfl, hphase, hwake⟩
    · cases h

/-! ### What a wait may take -/

/-- A wait sleeps at 0, or fails and takes nothing, or takes one, whatever it reports. -/
inductive Section.Takes (value : UInt32) : Section → Prop
  | sleeps (h : value = 0) : Takes value .waits
  | fails {status : ℤ} {locked : Bool} (h : status ≠ 0) : Takes value (.returns status value locked)
  | takes {status : ℤ} {locked : Bool} (h : value ≠ 0) :
      Takes value (.returns status (value - 1) locked)

namespace WaitFunction

variable (f : WaitFunction) (value : UInt32)

theorem loop_takes (status : ℤ) : (f.loop 0 status value).Takes value := by
  rw [loop, afterLoop]
  by_cases hv : value = 0
  · rw [if_pos hv]
    exact .sleeps hv
  · rw [if_neg hv]
    by_cases hs : status = 0
    · rw [if_pos hs]
      exact .takes hv
    · rw [if_neg hs]
      exact .fails hs

theorem enter_takes : (f.enter 0 0 value).Takes value := by
  rw [enter, if_pos (by decide)]
  exact f.loop_takes value f.status

theorem wake_takes (result : ℤ) : (f.wake 0 result value).Takes value := by
  rw [wake]
  by_cases hs : f.waited result value = 0
  · rw [if_neg (not_not.mpr hs)]
    exact f.loop_takes value _
  · rw [if_pos hs, afterLoop, if_neg hs]
    exact .fails hs

end WaitFunction

theorem section_takes {s : SemState T S} {a : Action T S} {i : T} {call : Call} {sem : S}
    {sec : Section}
    (h : s.criticalSection a = some (i, call, sem, sec)) (hpost : call.isPost = false) :
    sec.Takes s.value := by
  rcases section_cases h with ⟨-, -, rfl⟩ | ⟨result, -, -, hwake⟩
  · cases call with
    | post broadcast => cases hpost
    | _ => exact WaitFunction.enter_takes _ _
  · cases call with
    | post broadcast => cases hpost
    | _ =>
      cases hwake
      exact WaitFunction.wake_takes _ _ _

theorem section_posts {s : SemState T S} {a : Action T S} {i : T} {broadcast : ℕ} {sem : S}
    {sec : Section}
    (h : s.criticalSection a = some (i, .post broadcast, sem, sec)) :
    s.phase i = .calling (.post broadcast) sem ∧ sec = .returns 0 (s.value + 1) false := by
  rcases section_cases h with ⟨-, hphase, rfl⟩ | ⟨result, -, -, hwake⟩
  · exact ⟨hphase, post_enter broadcast s.value⟩
  · cases hwake

/-! ### Steps of the users -/

def Phase.waitsFor [DecidableEq S] (sem : S) : Phase S → Bool
  | .waiting _ sem' => sem' = sem
  | _ => false

variable [DecidableEq T] [DecidableEq S]

namespace Users

def start (inits : List (S × UInt32)) : Users T S := ⟨.initAll inits, [], fun _ => false⟩

def wakened (u : Users T S) (sem : S) : Call → T → Bool
  | .post 0, j => u.asleep j && !(u.sems.phase j).waitsFor sem
  | _, j => u.asleep j

def heldAfter (held : List (T × S)) (i : T) (call : Call) (sem : S) : Section → List (T × S)
  | .waits => held
  | .returns status _ _ =>
    if status ≠ 0 then held
    else if call.isPost then held.erase (i, sem)
    else (i, sem) :: held

def leave (u : Users T S) (i : T) (call : Call) (sem : S) (sec : Section) : Users T S where
  sems := u.sems.leave i call sem sec
  held := heldAfter u.held i call sem sec
  asleep := Function.update (u.wakened sem call) i (sec = .waits)

end Users

def userStep (u : Users T S) (a : Action T S) : Option (Users T S) :=
  (semStep u.sems a).map fun sems =>
    match u.sems.criticalSection a with
    | none => { u with sems := sems }
    | some (i, call, sem, sec) => u.leave i call sem sec

variable {u u' : Users T S} {a : Action T S}

theorem userStep_cases (h : userStep u a = some u') :
    (∃ i call sem, a = .call i call sem ∧ u.sems.phase i = .idle ∧
      (u.sems.initial sem).isSome ∧
      u' = { u with sems := { u.sems with
        phase := Function.update u.sems.phase i (.calling call sem) } }) ∨
    ∃ i call sem sec, u.sems.criticalSection a = some (i, call, sem, sec) ∧ u.sems.mutex = none ∧
      u' = u.leave i call sem sec := by
  obtain ⟨s, hs, rfl⟩ := Option.map_eq_some_iff.mp h
  cases a with
  | call i call sem =>
    rw [semStep] at hs
    split_ifs at hs with hidle
    cases hs
    exact .inl ⟨i, call, sem, rfl, hidle.1, hidle.2, rfl⟩
  | enter i =>
    rw [semStep] at hs
    split at hs
    · rename_i call sem hphase hmutex
      have hsec : u.sems.criticalSection (.enter i) =
          some (i, call, sem, call.enter u.sems.value) := by
        rw [SemState.criticalSection, hphase]
      refine .inr ⟨i, call, sem, _, hsec, hmutex, ?_⟩
      rw [hsec]
    · cases hs
  | wake i result =>
    rw [semStep] at hs
    split at hs
    · rename_i call sem hphase hmutex
      obtain ⟨sec, hwake, -⟩ := Option.map_eq_some_iff.mp hs
      have hsec : u.sems.criticalSection (.wake i result) = some (i, call, sem, sec) := by
        simp only [SemState.criticalSection, hphase, hwake, Option.map_some]
      refine .inr ⟨i, call, sem, sec, hsec, hmutex, ?_⟩
      rw [hsec]
    · cases hs

section Leave

variable (s : SemState T S) (i : T) (call : Call) (sem : S)

theorem leave_phase (sec : Section) : (s.leave i call sem sec).phase =
    Function.update s.phase i (if sec = .waits then .waiting call sem else .idle) := by
  cases sec with
  | waits => rfl
  | returns status value locked =>
    have hne : Section.returns status value locked ≠ .waits := by simp
    rw [SemState.leave, if_neg hne]
    split_ifs <;> rfl

theorem leave_initial (sec : Section) : (s.leave i call sem sec).initial = s.initial := by
  cases sec with
  | waits => rfl
  | returns status value locked =>
    rw [SemState.leave]
    split_ifs <;> rfl

@[simp] theorem leave_value (status : ℤ) (value : UInt32) (locked : Bool) :
    (s.leave i call sem (.returns status value locked)).value = value := by
  rw [SemState.leave]
  split_ifs <;> rfl

@[simp] theorem leave_mutex (status : ℤ) (value : UInt32) (locked : Bool) :
    (s.leave i call sem (.returns status value locked)).mutex =
      if locked then some i else none := by
  rw [SemState.leave]
  split_ifs <;> rfl

@[simp] theorem leave_returned (status : ℤ) (value : UInt32) (locked : Bool) :
    (s.leave i call sem (.returns status value locked)).returned =
      if call.isPost then s.returned else ⟨sem, status, s.value, value⟩ :: s.returned := by
  rw [SemState.leave]
  split_ifs <;> rfl

theorem mem_held_leave (u : Users T S) {sec : Section} {p : T × S} (hp : p.1 ≠ i) :
    p ∈ (u.leave i call sem sec).held ↔ p ∈ u.held := by
  change p ∈ Users.heldAfter u.held i call sem sec ↔ p ∈ u.held
  have hne : p ≠ (i, sem) := fun heq => hp (congrArg Prod.fst heq)
  cases sec with
  | waits => rfl
  | returns status value locked =>
    rw [Users.heldAfter]
    split_ifs
    · rfl
    · exact List.mem_erase_of_ne hne
    · simp [hne]

end Leave

/-! ### What is taken is held, or lost -/

/-- What `sem_wrapper_trywait` and `sem_wrapper_timedwait` took and reported an error for. -/
def SemState.lost (s : SemState T S) : ℕ :=
  s.returned.countP fun r => r.status ≠ 0 ∧ r.after ≠ r.before

theorem lost_leave (s : SemState T S) (i : T) (call : Call) (sem : S) (status : ℤ)
    (value : UInt32) (locked : Bool) :
    (s.leave i call sem (.returns status value locked)).lost =
      s.lost + if call.isPost = false ∧ status ≠ 0 ∧ value ≠ s.value then 1 else 0 := by
  rw [SemState.lost, leave_returned, SemState.lost]
  cases call.isPost with
  | true => simp
  | false => simp [List.countP_cons]

/-- A thread posts only what it holds. -/
def Users.Disciplined (u : Users T S) : Action T S → Prop
  | .call i (.post _) sem => (i, sem) ∈ u.held
  | _ => True

instance (u : Users T S) (a : Action T S) : Decidable (u.Disciplined a) :=
  match a with
  | .call i (.post _) sem => inferInstanceAs (Decidable ((i, sem) ∈ u.held))
  | .call _ .wait _ | .call _ .trywait _ | .call _ .timedwait _ => isTrue trivial
  | .enter _ => isTrue trivial
  | .wake _ _ => isTrue trivial

/-- The invariant: of `w` in all, each is held, shown by the counter, or lost; and a thread in
`sem_wrapper_post` still holds what it posts. -/
structure Users.Conserved (w : ℕ) (u : Users T S) : Prop where
  total : u.held.length + u.sems.value.toNat + u.sems.lost = w
  posting : ∀ i broadcast sem, u.sems.phase i = .calling (.post broadcast) sem →
    (i, sem) ∈ u.held

namespace Users.Conserved

variable {w : ℕ} {i : T} {call : Call} {sem : S} {sec : Section}

omit [DecidableEq S] in
theorem startCall (h : u.Conserved w) (hd : u.Disciplined (.call i call sem)) :
    Users.Conserved w { u with sems := { u.sems with
      phase := Function.update u.sems.phase i (.calling call sem) } } := by
  refine ⟨h.total, ?_⟩
  intro j broadcast sem' hphase
  dsimp only at hphase
  by_cases hj : j = i
  · subst hj
    rw [Function.update_self] at hphase
    cases hphase
    exact hd
  · rw [Function.update_of_ne hj] at hphase
    exact h.posting j broadcast sem' hphase

theorem posting_leave (h : u.Conserved w) :
    ∀ j broadcast sem', (u.leave i call sem sec).sems.phase j = .calling (.post broadcast) sem' →
      (j, sem') ∈ (u.leave i call sem sec).held := by
  intro j broadcast sem' hphase
  simp only [Users.leave, leave_phase] at hphase
  by_cases hj : j = i
  · subst hj
    rw [Function.update_self] at hphase
    split_ifs at hphase
  · rw [Function.update_of_ne hj] at hphase
    exact (mem_held_leave i call sem u hj).mpr (h.posting j broadcast sem' hphase)

/-- A wait moves one from the counter to its thread, or loses it. -/
theorem wait (h : u.Conserved w) (hpost : call.isPost = false) (hsec : sec.Takes u.sems.value) :
    (u.leave i call sem sec).Conserved w := by
  have htotal := h.total
  refine ⟨?_, h.posting_leave⟩
  cases hsec with
  | sleeps => exact h.total
  | fails hstatus => simpa [Users.leave, Users.heldAfter, lost_leave, hstatus] using htotal
  | @takes status locked hvalue =>
    have hpred := toNat_pred (toNat_pos hvalue)
    have hne : u.sems.value - 1 ≠ u.sems.value := by
      intro heq
      rw [heq] at hpred
      omega
    rw [Users.leave, Users.heldAfter, leave_value, lost_leave]
    by_cases hstatus : status = 0
    · rw [if_neg (not_not.mpr hstatus), if_neg (by simp [hpost]), if_neg (by simp [hstatus]),
        List.length_cons]
      omega
    · rw [if_pos hstatus, if_pos ⟨hpost, hstatus, hne⟩]
      dsimp only
      omega

/-- A post moves one from its thread to the counter, which has room for it. -/
theorem post {broadcast : ℕ} (h : u.Conserved w) (hw : w < UInt32.size)
    (hphase : u.sems.phase i = .calling (.post broadcast) sem) :
    (u.leave i (.post broadcast) sem (.returns 0 (u.sems.value + 1) false)).Conserved w := by
  have hmem := h.posting i broadcast sem hphase
  have hlength := List.length_erase_add_one hmem
  have htotal := h.total
  have hroom : u.sems.value.toNat + 1 < 2 ^ 32 := by
    change w < 2 ^ 32 at hw
    omega
  refine ⟨?_, h.posting_leave⟩
  have hkind : (Call.post broadcast).isPost = true := rfl
  rw [Users.leave, Users.heldAfter, leave_value, lost_leave, if_neg (by simp), if_pos hkind,
    if_neg (by simp), toNat_succ hroom]
  dsimp only
  omega

theorem step (h : u.Conserved w) (hw : w < UInt32.size) (hd : u.Disciplined a)
    (hs : userStep u a = some u') : u'.Conserved w := by
  rcases userStep_cases hs with ⟨i, call, sem, rfl, -, -, rfl⟩ | ⟨i, call, sem, sec, hsec, -, rfl⟩
  · exact h.startCall hd
  · cases call with
    | post broadcast =>
      obtain ⟨hphase, rfl⟩ := section_posts hsec
      exact h.post hw hphase
    | _ => exact h.wait rfl (section_takes hsec rfl)

end Users.Conserved

/-! ### Initialisation -/

omit [DecidableEq T] in
theorem value_initAll (inits : List (S × UInt32)) :
    (SemState.initAll inits : SemState T S).value = (inits.getLast?.map Prod.snd).getD 0 := by
  induction inits using List.reverseRecOn with
  | nil => rfl
  | append_singleton inits p ih =>
    rw [SemState.initAll, List.foldl_append, List.getLast?_concat]
    rfl

omit [DecidableEq T] in
theorem unused_initAll (inits : List (S × UInt32)) :
    (SemState.initAll inits : SemState T S).returned = [] ∧
      (SemState.initAll inits : SemState T S).mutex = none ∧
      (SemState.initAll inits : SemState T S).Quiet := by
  induction inits using List.reverseRecOn with
  | nil => exact ⟨rfl, rfl, fun i => rfl⟩
  | append_singleton inits p ih =>
    rw [SemState.initAll, List.foldl_append]
    exact ih

/-- In every interleaving of threads that post only what they hold, whatever the condition waits
and broadcasts return: what the threads hold of all semaphores together, the counter, and what the
two other wait functions took without saying so make up the value initialised last. So no more
than that can be held at once, and the counter does not overflow. -/
theorem sem_run_conserved (inits : List (S × UInt32)) (actions : List (Action T S))
    (hdisciplined : Along userStep Users.Disciplined (.start inits) actions) {u : Users T S}
    (hrun : runFrom userStep (.start inits) actions = some u) :
    u.held.length + u.sems.value.toNat + u.sems.lost =
      ((inits.getLast?.map Prod.snd).getD 0).toNat := by
  obtain ⟨hreturned, -, hquiet⟩ := unused_initAll (T := T) inits
  have hstart : (Users.start inits : Users T S).Conserved
      ((inits.getLast?.map Prod.snd).getD 0).toNat := by
    constructor
    · simp [Users.start, SemState.lost, hreturned, value_initAll]
    · intro i broadcast sem hphase
      rw [Users.start, hquiet i] at hphase
      cases hphase
  generalize hw : (inits.getLast?.map Prod.snd).getD 0 = w at hstart ⊢
  have hstep : ∀ (u : Users T S) a u', u.Conserved w.toNat → u.Disciplined a →
      userStep u a = some u' → u'.Conserved w.toNat := by
    intro u a u' h hd hs
    exact h.step w.toNat_lt_size hd hs
  exact (runFrom_invariant hstep hstart hdisciplined hrun).total

/-- One thread waits for a semaphore, and another tries to. -/
def twoTakers : List (Action Bool Unit) :=
  [.call false .wait (), .enter false, .call true .trywait (), .enter true]

/-- Of two, one is held, and the other was taken without saying so. -/
theorem sem_run_conserved_example :
    ∃ u, runFrom userStep (.start [((), 2)]) twoTakers = some u ∧ u.held = [(false, ())] ∧
      u.sems.lost = 1 ∧ u.held.length + u.sems.value.toNat + u.sems.lost = 2 :=
  ⟨_, rfl, rfl, rfl, sem_run_conserved [((), 2)] twoTakers (by decide) rfl⟩

end MorningProjects.Semaphore
