import MorningProjects.ELibrary.Delivery
import Mathlib.Logic.Relation

/-!
# No message is stuck

The exchange thread only sleeps while the slot is empty, or while the thread that has filled
it is about to signal. So a thread that holds the mutex can always run on and release it, and
then the slot can be emptied, with no wake-up but the one signalled.
-/
namespace MorningProjects.ELibrary
open Library

variable {ι : Type*}

def SenderPc.willSignal : SenderPc → Bool
  | .eventSet _ | .copied => true
  | .idle | .wantLock _ | .locked _ | .freeSlot _ | .signalled | .busy _ | .sleeping _ => false

/-- The mutex is held by a party that is inside, and the exchange thread is woken for an event. -/
structure Mailbox.Awake (s : Mailbox ι) : Prop where
  delivers : s.Delivers
  held : ∀ p, s.lock = some p → s.holdsLock p = true
  woken : s.exchange = .waiting → s.event ≠ .undef → ∃ i, (s.sender i).willSignal = true
  running : s.event ≠ .shutdown ∧ s.exchange ≠ .ended

theorem awake_init : (Mailbox.init : Mailbox ι).Awake := by
  constructor
  · exact delivers_init
  · intro p hp
    cases hp
  · intro hx
    cases hx
  · simp [Mailbox.init]

theorem Mailbox.Awake.not_lock {s : Mailbox ι} (h : s.Awake) {p : Party ι}
    (hp : s.holdsLock p = false) : s.lock ≠ some p := by
  intro hlock
  rw [h.held p hlock] at hp
  cases hp

section Step

variable [DecidableEq ι] {s s' : Mailbox ι}

theorem Mailbox.Awake.moveSender (h : s.Awake) (hd : s'.Delivers) {i : ι} {pc : SenderPc}
    (hsender : s'.sender = Function.update s.sender i pc)
    (hheld : s'.lock = some (.sender i) → pc.holdsLock = true)
    (hlock : ∀ p, p ≠ .sender i → s'.lock = some p → s.lock = some p)
    (hexchange : s'.exchange = s.exchange ∨ s'.exchange = .wantLock ∧ s.exchange = .waiting)
    (hevent : s'.event = s.event ∧ (s.sender i).willSignal = false ∨
      s'.event ≠ .shutdown ∧ (pc.willSignal = true ∨ s'.exchange ≠ .waiting)) : s'.Awake := by
  have hother : ∀ j, j ≠ i → s'.sender j = s.sender j := by
    intro j hj
    rw [hsender, Function.update_of_ne hj]
  have hself : s'.sender i = pc := by
    rw [hsender, Function.update_self]
  refine ⟨hd, ?_, ?_, ?_⟩
  · intro p hp
    cases p with
    | sender j =>
      by_cases hj : j = i
      · subst hj
        rw [Mailbox.holdsLock, hself]
        exact hheld hp
      · rw [Mailbox.holdsLock, hother j hj]
        exact h.held (.sender j) (hlock _ (by simpa using hj) hp)
    | exchange =>
      have hinside := h.held .exchange (hlock _ (by simp) hp)
      rcases hexchange with hx | ⟨-, hx⟩
      · rw [Mailbox.holdsLock, hx]
        exact hinside
      · rw [Mailbox.holdsLock, hx] at hinside
        cases hinside
  · intro hx hne
    rcases hevent with ⟨hsame, hbefore⟩ | ⟨-, hsignal | hawake⟩
    · have hwaiting : s.exchange = .waiting := by
        rcases hexchange with hx' | ⟨hx', -⟩
        · rw [← hx', hx]
        · rw [hx] at hx'
          cases hx'
      obtain ⟨j, hj⟩ := h.woken hwaiting (hsame ▸ hne)
      have hji : j ≠ i := by
        rintro rfl
        rw [hbefore] at hj
        cases hj
      exact ⟨j, by rw [hother j hji, hj]⟩
    · exact ⟨i, by rw [hself, hsignal]⟩
    · exact absurd hx hawake
  · constructor
    · rcases hevent with ⟨hsame, -⟩ | ⟨hne, -⟩
      · rw [hsame]
        exact h.running.1
      · exact hne
    · rcases hexchange with hx | ⟨hx, -⟩
      · rw [hx]
        exact h.running.2
      · rw [hx]
        simp

omit [DecidableEq ι] in
theorem Mailbox.Awake.moveExchange (h : s.Awake) (hd : s'.Delivers)
    (hsender : s'.sender = s.sender)
    (hheld : s'.lock = some .exchange → s'.exchange.holdsLock = true)
    (hlock : ∀ i, s'.lock = some (.sender i) → s.lock = some (.sender i))
    (hevent : s'.event ≠ .shutdown ∧ (s'.exchange = .waiting → s'.event = .undef))
    (hended : s'.exchange ≠ .ended) : s'.Awake := by
  refine ⟨hd, ?_, ?_, hevent.1, hended⟩
  · intro p hp
    cases p with
    | sender i =>
      rw [Mailbox.holdsLock, hsender]
      exact h.held (.sender i) (hlock i hp)
    | exchange => exact hheld hp
  · intro hx hne
    exact absurd (hevent.2 hx) hne

theorem Mailbox.Awake.step (h : s.Awake) {action : MailboxAction ι}
    (hs : mailboxStep s action = some s') : s'.Awake := by
  have hd := h.delivers.step hs
  cases action with
  | notify i call =>
    cases hpc : s.sender i with
    | idle =>
      simp only [mailboxStep, hpc] at hs
      cases hs
      apply h.moveSender hd rfl _ (fun p _ hp => hp) (.inl rfl) (.inl ⟨rfl, by rw [hpc]; rfl⟩)
      intro hlock
      exact absurd hlock (h.not_lock (by rw [Mailbox.holdsLock, hpc]; rfl))
    | _ => simp [mailboxStep, hpc] at hs
  | lock i =>
    cases hpc : s.sender i with
    | wantLock call =>
      cases hlock : s.lock with
      | none =>
        simp only [mailboxStep, hpc, hlock] at hs
        cases hs
        apply h.moveSender hd rfl (fun _ => rfl) _ (.inl rfl) (.inl ⟨rfl, by rw [hpc]; rfl⟩)
        intro p hp hsome
        exact absurd (Option.some.inj hsome).symm hp
      | some p => simp [mailboxStep, hpc, hlock] at hs
    | _ => simp [mailboxStep, hpc] at hs
  | test i =>
    cases hpc : s.sender i with
    | locked call =>
      simp only [mailboxStep, hpc] at hs
      cases hs
      apply h.moveSender hd rfl _ (fun p _ hp => hp) (.inl rfl) (.inl ⟨rfl, by rw [hpc]; rfl⟩)
      intro _
      split_ifs <;> rfl
    | _ => simp [mailboxStep, hpc] at hs
  | setEvent i =>
    cases hpc : s.sender i with
    | freeSlot call =>
      simp only [mailboxStep, hpc] at hs
      cases hs
      exact h.moveSender hd rfl (fun _ => rfl) (fun p _ hp => hp) (.inl rfl)
        (.inr ⟨by simp, .inl rfl⟩)
    | _ => simp [mailboxStep, hpc] at hs
  | copy i =>
    cases hpc : s.sender i with
    | eventSet call =>
      simp only [mailboxStep, hpc] at hs
      cases hs
      exact h.moveSender hd rfl (fun _ => rfl) (fun p _ hp => hp) (.inl rfl)
        (.inr ⟨h.running.1, .inl rfl⟩)
    | _ => simp [mailboxStep, hpc] at hs
  | signal i =>
    cases hpc : s.sender i with
    | copied =>
      simp only [mailboxStep, hpc] at hs
      cases hs
      apply h.moveSender hd rfl (fun _ => rfl) (fun p _ hp => hp)
      · cases hx : s.exchange <;> simp
      · refine .inr ⟨h.running.1, .inr ?_⟩
        cases hx : s.exchange <;> simp
    | _ => simp [mailboxStep, hpc] at hs
  | unlock i =>
    cases hpc : s.sender i with
    | signalled =>
      simp only [mailboxStep, hpc] at hs
      cases hs
      apply h.moveSender hd rfl _ _ (.inl rfl) (.inl ⟨rfl, by rw [hpc]; rfl⟩) <;> simp
    | busy call =>
      simp only [mailboxStep, hpc] at hs
      cases hs
      apply h.moveSender hd rfl _ _ (.inl rfl) (.inl ⟨rfl, by rw [hpc]; rfl⟩) <;> simp
    | _ => simp [mailboxStep, hpc] at hs
  | retry i =>
    cases hpc : s.sender i with
    | sleeping call =>
      simp only [mailboxStep, hpc] at hs
      cases hs
      apply h.moveSender hd rfl _ (fun p _ hp => hp) (.inl rfl) (.inl ⟨rfl, by rw [hpc]; rfl⟩)
      intro hlock
      exact absurd hlock (h.not_lock (by rw [Mailbox.holdsLock, hpc]; rfl))
    | _ => simp [mailboxStep, hpc] at hs
  | exchangeStart =>
    cases hpc : s.exchange with
    | starting =>
      simp only [mailboxStep, hpc] at hs
      cases hs
      apply h.moveExchange hd rfl _ (fun i hi => hi) ⟨h.running.1, by simp⟩ (by simp)
      intro hlock
      exact absurd hlock (h.not_lock (by rw [Mailbox.holdsLock, hpc]; rfl))
    | _ => simp [mailboxStep, hpc] at hs
  | exchangeLock =>
    cases hpc : s.exchange with
    | wantLock =>
      cases hlock : s.lock with
      | none =>
        simp only [mailboxStep, hpc, hlock] at hs
        cases hs
        exact h.moveExchange hd rfl (fun _ => rfl) (by simp) ⟨h.running.1, by simp⟩ (by simp)
      | some p => simp [mailboxStep, hpc, hlock] at hs
    | _ => simp [mailboxStep, hpc] at hs
  | exchangeTest =>
    cases hpc : s.exchange with
    | testing =>
      cases hevent : s.event with
      | undef =>
        simp only [mailboxStep, hpc, hevent] at hs
        cases hs
        exact h.moveExchange hd rfl (by simp) (by simp) (by simp) (by simp)
      | msgSent =>
        simp only [mailboxStep, hpc, hevent] at hs
        cases hs
        exact h.moveExchange hd rfl (fun _ => rfl) (fun i hi => hi) (by simp) (by simp)
      | shutdown => exact absurd hevent h.running.1
    | _ => simp [mailboxStep, hpc] at hs
  | exchangeWake =>
    cases hpc : s.exchange with
    | waiting =>
      simp only [mailboxStep, hpc] at hs
      cases hs
      apply h.moveExchange hd rfl _ (fun i hi => hi) ⟨h.running.1, by simp⟩ (by simp)
      intro hlock
      exact absurd hlock (h.not_lock (by rw [Mailbox.holdsLock, hpc]; rfl))
    | _ => simp [mailboxStep, hpc] at hs
  | exchangeClear =>
    cases hpc : s.exchange with
    | handling payload =>
      simp only [mailboxStep, hpc] at hs
      cases hs
      exact h.moveExchange hd rfl (fun _ => rfl) (fun i hi => hi) (by simp) (by simp)
    | _ => simp [mailboxStep, hpc] at hs

end Step

/-! ### Schedules -/

section Schedule

variable [DecidableEq ι] {s s' s'' : Mailbox ι} {i : ι} {call : NotifyCall}

/-- Neither a new call nor a wake-up without a signal. -/
def MailboxAction.prompt : MailboxAction ι → Bool
  | .notify _ _ | .exchangeWake => false
  | .lock _ | .test _ | .setEvent _ | .copy _ | .signal _ | .unlock _ | .retry _ => true
  | .exchangeStart | .exchangeLock | .exchangeTest | .exchangeClear => true

def Prompt (s s' : Mailbox ι) : Prop :=
  ∃ action : MailboxAction ι, action.prompt = true ∧ mailboxStep s action = some s'

def GoesOn : Mailbox ι → Mailbox ι → Prop := Relation.ReflTransGen Prompt

theorem GoesOn.refl (s : Mailbox ι) : GoesOn s s := Relation.ReflTransGen.refl

theorem GoesOn.trans (h : GoesOn s s') (h' : GoesOn s' s'') : GoesOn s s'' :=
  Relation.ReflTransGen.trans h h'

theorem GoesOn.head {action : MailboxAction ι} (haction : action.prompt = true)
    (hs : mailboxStep s action = some s') (h : GoesOn s' s'') : GoesOn s s'' :=
  Relation.ReflTransGen.head ⟨action, haction, hs⟩ h

theorem GoesOn.awake (h : GoesOn s s') (hs : s.Awake) : s'.Awake := by
  induction h with
  | refl => exact hs
  | tail _ hstep ih =>
    obtain ⟨action, -, hstep⟩ := hstep
    exact ih.step hstep

theorem mailboxStep_prompt {action : MailboxAction ι} (hprompt : action.prompt = true)
    (hs : mailboxStep s action = some s') :
    (s'.accepted = s.accepted ∧ ∀ j, (s'.sender j).pending = (s.sender j).pending) ∨
      ∃ i call, (s.sender i).pending = some call ∧ s'.accepted = s.accepted ++ [call] ∧
        ∀ j, (s'.sender j).pending = if j = i then none else (s.sender j).pending := by
  cases action with
  | notify i call => cases hprompt
  | exchangeWake => cases hprompt
  | exchangeClear =>
    cases hx : s.exchange with
    | handling payload =>
      simp only [mailboxStep, hx] at hs
      cases hs
      exact .inl ⟨rfl, fun _ => rfl⟩
    | _ => simp [mailboxStep, hx] at hs
  | _ => exact (mailboxStep_onSlot rfl hs).2

/-- What is accepted stays so, and a call that is pending is accepted or still pending. -/
theorem GoesOn.tracks (h : GoesOn s s') (hcall : (s.sender i).pending = some call) :
    ∃ others, s'.accepted = s.accepted ++ others ∧
      (call ∈ others ∨ (s'.sender i).pending = some call) := by
  induction h with
  | refl => exact ⟨[], (List.append_nil _).symm, .inr hcall⟩
  | tail _ hstep ih =>
    obtain ⟨action, hprompt, hstep⟩ := hstep
    obtain ⟨others, haccepted, hcase⟩ := ih
    rcases mailboxStep_prompt hprompt hstep with ⟨hsame, hpending⟩ |
      ⟨j, other, hother, happend, hpending⟩
    · exact ⟨others, hsame.trans haccepted, hcase.imp_right (hpending i).trans⟩
    · refine ⟨others ++ [other], by rw [happend, haccepted, List.append_assoc], ?_⟩
      rcases hcase with hin | hwait
      · exact .inl (List.mem_append_left _ hin)
      · by_cases hij : i = j
        · subst hij
          obtain rfl : call = other := Option.some.inj (hwait.symm.trans hother)
          exact .inl (List.mem_append_right _ (List.mem_singleton.mpr rfl))
        · right
          rw [hpending, if_neg hij, hwait]

theorem GoesOn.accepted (h : GoesOn s s') : ∃ others, s'.accepted = s.accepted ++ others := by
  induction h with
  | refl => exact ⟨[], (List.append_nil _).symm⟩
  | tail _ hstep ih =>
    obtain ⟨action, hprompt, hstep⟩ := hstep
    obtain ⟨others, haccepted⟩ := ih
    rcases mailboxStep_prompt hprompt hstep with ⟨hsame, -⟩ | ⟨-, other, -, happend, -⟩
    · exact ⟨others, hsame.trans haccepted⟩
    · exact ⟨others ++ [other], by rw [happend, haccepted, List.append_assoc]⟩

/-! ### Releasing the mutex -/

def Releases (s : Mailbox ι) : Prop := ∃ s', GoesOn s s' ∧ s'.lock = none

theorem Releases.head {action : MailboxAction ι} (h : Releases s')
    (haction : action.prompt = true) (hs : mailboxStep s action = some s') : Releases s := by
  obtain ⟨s'', hgoes, hlock⟩ := h
  exact ⟨s'', hgoes.head haction hs, hlock⟩

theorem releases_of_lock (h : s.lock = none) : Releases s := ⟨s, GoesOn.refl s, h⟩

theorem releases_of_signalled (hpc : s.sender i = .signalled) : Releases s := by
  have hstep : mailboxStep s (.unlock i) = some { s.setSender i .idle with lock := none } := by
    rw [mailboxStep, hpc]
  exact (releases_of_lock rfl).head rfl hstep

theorem releases_of_copied (hpc : s.sender i = .copied) : Releases s := by
  have hstep : ∃ s', mailboxStep s (.signal i) = some s' ∧ s'.sender i = .signalled := by
    rw [mailboxStep, hpc]
    exact ⟨_, rfl, Function.update_self ..⟩
  obtain ⟨s', hs', hsender⟩ := hstep
  exact (releases_of_signalled hsender).head rfl hs'

theorem step_copy (hpc : s.sender i = .eventSet call) :
    ∃ s', mailboxStep s (.copy i) = some s' ∧ s'.sender i = .copied ∧
      s'.accepted = s.accepted ++ [call] := by
  rw [mailboxStep, hpc]
  exact ⟨_, rfl, Function.update_self .., rfl⟩

theorem releases_of_eventSet (hpc : s.sender i = .eventSet call) : Releases s := by
  obtain ⟨s', hs', hsender, -⟩ := step_copy hpc
  exact (releases_of_copied hsender).head rfl hs'

theorem step_setEvent (hpc : s.sender i = .freeSlot call) :
    ∃ s', mailboxStep s (.setEvent i) = some s' ∧ s'.sender i = .eventSet call ∧
      s'.accepted = s.accepted := by
  rw [mailboxStep, hpc]
  exact ⟨_, rfl, Function.update_self .., rfl⟩

theorem releases_of_freeSlot (hpc : s.sender i = .freeSlot call) : Releases s := by
  obtain ⟨s', hs', hsender, -⟩ := step_setEvent hpc
  exact (releases_of_eventSet hsender).head rfl hs'

theorem releases_of_busy (hpc : s.sender i = .busy call) : Releases s := by
  have hstep : mailboxStep s (.unlock i) =
      some { s.setSender i (.sleeping call) with lock := none } := by
    rw [mailboxStep, hpc]
  exact (releases_of_lock rfl).head rfl hstep

theorem step_test (hpc : s.sender i = .locked call) :
    ∃ s', mailboxStep s (.test i) = some s' ∧ s'.accepted = s.accepted ∧
      s'.sender i = if s.event = .undef then .freeSlot call else .busy call := by
  rw [mailboxStep, hpc]
  exact ⟨_, rfl, rfl, Function.update_self ..⟩

theorem releases_of_locked (hpc : s.sender i = .locked call) : Releases s := by
  obtain ⟨s', hs', -, hsender⟩ := step_test hpc
  split_ifs at hsender
  · exact (releases_of_freeSlot hsender).head rfl hs'
  · exact (releases_of_busy hsender).head rfl hs'

theorem step_testEmpty (hx : s.exchange = .testing) (hevent : s.event = .undef) :
    mailboxStep s .exchangeTest = some { s with exchange := .waiting, lock := none } := by
  rw [mailboxStep, hx, hevent]

theorem exists_waiting {payload : List UInt8} (hx : s.exchange = .handling payload) :
    ∃ s', GoesOn s s' ∧ s'.lock = none ∧ s'.event = .undef := by
  have hclear : ∃ s', mailboxStep s .exchangeClear = some s' ∧ s'.exchange = .testing ∧
      s'.event = .undef := by
    rw [mailboxStep, hx]
    exact ⟨_, rfl, rfl, rfl⟩
  obtain ⟨s', hs', hx', hevent⟩ := hclear
  exact ⟨_, (GoesOn.refl _).head rfl (step_testEmpty hx' hevent) |>.head rfl hs', rfl, hevent⟩

theorem exists_handled (hx : s.exchange = .testing) (hevent : s.event = .msgSent) :
    ∃ s', GoesOn s s' ∧ s'.lock = none ∧ s'.event = .undef := by
  have htest : ∃ s', mailboxStep s .exchangeTest = some s' ∧
      s'.exchange = .handling s.payload := by
    rw [mailboxStep, hx, hevent]
    exact ⟨_, rfl, rfl⟩
  obtain ⟨s', hs', hx'⟩ := htest
  obtain ⟨s'', hgoes, hend⟩ := exists_waiting hx'
  exact ⟨s'', hgoes.head rfl hs', hend⟩

/-- Whoever holds the mutex goes on and releases it. -/
theorem Mailbox.Awake.releases (h : s.Awake) : Releases s := by
  cases hlock : s.lock with
  | none => exact releases_of_lock hlock
  | some p =>
    have hinside := h.held p hlock
    cases p with
    | sender i =>
      rw [Mailbox.holdsLock] at hinside
      cases hpc : s.sender i with
      | locked call => exact releases_of_locked hpc
      | freeSlot call => exact releases_of_freeSlot hpc
      | eventSet call => exact releases_of_eventSet hpc
      | copied => exact releases_of_copied hpc
      | signalled => exact releases_of_signalled hpc
      | busy call => exact releases_of_busy hpc
      | _ =>
        rw [hpc] at hinside
        cases hinside
    | exchange =>
      rw [Mailbox.holdsLock] at hinside
      cases hx : s.exchange with
      | testing =>
        cases hevent : s.event with
        | undef => exact (releases_of_lock rfl).head rfl (step_testEmpty hx hevent)
        | msgSent =>
          obtain ⟨s', hgoes, hfree, -⟩ := exists_handled hx hevent
          exact ⟨s', hgoes, hfree⟩
        | shutdown => exact absurd hevent h.running.1
      | handling payload =>
        obtain ⟨s', hgoes, hfree, -⟩ := exists_waiting hx
        exact ⟨s', hgoes, hfree⟩
      | _ =>
        rw [hx] at hinside
        cases hinside

/-! ### Emptying the slot -/

theorem exists_emptied_of_wantLock (hlock : s.lock = none) (hx : s.exchange = .wantLock)
    (hevent : s.event = .msgSent) : ∃ s', GoesOn s s' ∧ s'.lock = none ∧ s'.event = .undef := by
  have hstep : ∃ s', mailboxStep s .exchangeLock = some s' ∧ s'.exchange = .testing ∧
      s'.event = .msgSent := by
    rw [mailboxStep, hx, hlock]
    exact ⟨_, rfl, rfl, hevent⟩
  obtain ⟨s', hs', hx', hevent'⟩ := hstep
  obtain ⟨s'', hgoes, hend⟩ := exists_handled hx' hevent'
  exact ⟨s'', hgoes.head rfl hs', hend⟩

/-- Nobody has to wake the exchange thread once more. -/
theorem Mailbox.Awake.exists_emptied (h : s.Awake) :
    ∃ s', GoesOn s s' ∧ s'.lock = none ∧ s'.event = .undef := by
  obtain ⟨t, hgoes, hlock⟩ := h.releases
  have ht := hgoes.awake h
  have hout : ∀ p, t.holdsLock p = false := ht.delivers.acquire hlock
  cases hevent : t.event with
  | undef => exact ⟨t, hgoes, hlock, hevent⟩
  | shutdown => exact absurd hevent ht.running.1
  | msgSent =>
    have hnext : ∃ s', GoesOn t s' ∧ s'.lock = none ∧ s'.event = .undef := by
      cases hx : t.exchange with
      | starting =>
        have hstep : ∃ t', mailboxStep t .exchangeStart = some t' ∧ t'.lock = none ∧
            t'.exchange = .wantLock ∧ t'.event = .msgSent := by
          rw [mailboxStep, hx]
          exact ⟨_, rfl, hlock, rfl, hevent⟩
        obtain ⟨t', ht', hlock', hx', hevent'⟩ := hstep
        obtain ⟨s', hgoes', hend⟩ := exists_emptied_of_wantLock hlock' hx' hevent'
        exact ⟨s', hgoes'.head rfl ht', hend⟩
      | wantLock => exact exists_emptied_of_wantLock hlock hx hevent
      | waiting =>
        -- a sender about to signal is inside, but the mutex is free
        obtain ⟨j, hj⟩ := ht.woken hx (by rw [hevent]; decide)
        have hj' := hout (.sender j)
        rw [Mailbox.holdsLock] at hj'
        cases hpc : t.sender j <;> rw [hpc] at hj hj' <;> simp [SenderPc.willSignal] at hj <;>
          simp [SenderPc.holdsLock] at hj'
      | testing =>
        have hinside := hout .exchange
        rw [Mailbox.holdsLock, hx] at hinside
        cases hinside
      | handling payload =>
        have hinside := hout .exchange
        rw [Mailbox.holdsLock, hx] at hinside
        cases hinside
      | ended => exact absurd hx ht.running.2
    obtain ⟨s', hgoes', hend⟩ := hnext
    exact ⟨s', hgoes.trans hgoes', hend⟩

/-! ### A call -/

theorem exists_accepted_of_wantLock (hlock : s.lock = none) (hevent : s.event = .undef)
    (hpc : s.sender i = .wantLock call) :
    ∃ s', GoesOn s s' ∧ s'.accepted = s.accepted ++ [call] := by
  have hstep : ∃ s', mailboxStep s (.lock i) = some s' ∧ s'.sender i = .locked call ∧
      s'.accepted = s.accepted ∧ s'.event = .undef := by
    rw [mailboxStep, hpc, hlock]
    exact ⟨_, rfl, Function.update_self .., rfl, hevent⟩
  obtain ⟨s₁, hs₁, hpc₁, hacc₁, hevent₁⟩ := hstep
  obtain ⟨s₂, hs₂, hacc₂, hpc₂⟩ := step_test hpc₁
  rw [if_pos hevent₁] at hpc₂
  obtain ⟨s₃, hs₃, hpc₃, hacc₃⟩ := step_setEvent hpc₂
  obtain ⟨s₄, hs₄, -, hacc₄⟩ := step_copy hpc₃
  refine ⟨s₄, ?_, by rw [hacc₄, hacc₃, hacc₂, hacc₁]⟩
  exact (GoesOn.refl s₄).head rfl hs₄ |>.head rfl hs₃ |>.head rfl hs₂ |>.head rfl hs₁

/-- A call that is pending can be accepted. -/
theorem Mailbox.Awake.exists_accepted (h : s.Awake) (hcall : (s.sender i).pending = some call) :
    ∃ s' others, GoesOn s s' ∧ s'.accepted = s.accepted ++ others ∧ call ∈ others := by
  obtain ⟨t, hgoes, hlock, hevent⟩ := h.exists_emptied
  obtain ⟨others, haccepted, hin | hwait⟩ := hgoes.tracks hcall
  · exact ⟨t, others, hgoes, haccepted, hin⟩
  · have hout := (hgoes.awake h).delivers.acquire hlock (.sender i)
    rw [Mailbox.holdsLock] at hout
    have hend : ∃ s', GoesOn t s' ∧ s'.accepted = t.accepted ++ [call] := by
      cases hpc : t.sender i with
      | wantLock other =>
        rw [hpc] at hwait
        obtain rfl : other = call := Option.some.inj hwait
        exact exists_accepted_of_wantLock hlock hevent hpc
      | sleeping other =>
        rw [hpc] at hwait
        obtain rfl : other = call := Option.some.inj hwait
        have hstep : mailboxStep t (.retry i) = some (t.setSender i (.wantLock other)) := by
          rw [mailboxStep, hpc]
        obtain ⟨s', hgoes', hend⟩ := exists_accepted_of_wantLock
          (s := t.setSender i (.wantLock other)) hlock hevent (Function.update_self ..)
        exact ⟨s', hgoes'.head rfl hstep, hend⟩
      | _ =>
        rw [hpc] at hwait hout
        first
          | simp [SenderPc.pending] at hwait; done
          | simp [SenderPc.holdsLock] at hout
    obtain ⟨s', hgoes', hend⟩ := hend
    refine ⟨s', others ++ [call], hgoes.trans hgoes', ?_, ?_⟩
    · rw [hend, haccepted, List.append_assoc]
    · exact List.mem_append_right _ (List.mem_singleton.mpr rfl)

end Schedule

section Run

variable [DecidableEq ι]

/-- From every state that an interleaving reaches, any call that a thread has begun can still be
accepted and processed, together with everything accepted before it, although no new call is made
and the exchange thread is woken by signals alone. -/
theorem mailbox_progress (actions : List (MailboxAction ι)) {s : Mailbox ι}
    (hs : runFrom mailboxStep Mailbox.init actions = some s) {i : ι} {call : NotifyCall}
    (hcall : (s.sender i).pending = some call) :
    ∃ s' others, GoesOn s s' ∧ s'.accepted = s.accepted ++ others ∧ call ∈ others ∧
      s'.processed = s'.accepted.map NotifyCall.systemMsg := by
  have h : s.Awake := by
    apply runFrom_invariant_of_step _ awake_init hs
    intro t action t' ht hstep
    exact ht.step hstep
  obtain ⟨t, others, hgoes, haccepted, hin⟩ := h.exists_accepted hcall
  obtain ⟨s', hgoes', -, hevent⟩ := (hgoes.awake h).exists_emptied
  obtain ⟨more, hmore⟩ := hgoes'.accepted
  obtain ⟨handled, waiting, hsplit, hprocessed, -, hempty⟩ :=
    (hgoes'.awake (hgoes.awake h)).delivers.split
  refine ⟨s', others ++ more, hgoes.trans hgoes', ?_, List.mem_append_left _ hin, ?_⟩
  · rw [hmore, haccepted, List.append_assoc]
  · rw [hsplit, hempty hevent, List.append_nil, hprocessed]

end Run

/-- The second sender has found the slot occupied and sleeps. -/
theorem mailbox_progress_example :
    ∃ s s', runFrom mailboxStep Mailbox.init (twoSenders.take 14) = some s ∧ GoesOn s s' ∧
      (∃ call ∈ s'.accepted, call.frdName = anna) ∧
      s'.processed = s'.accepted.map NotifyCall.systemMsg := by
  have hrun : (runFrom mailboxStep Mailbox.init (twoSenders.take 14)).any
      (fun s => (s.sender true).pending.any fun call => call.frdName = anna) = true := rfl
  obtain ⟨s, hs, hany⟩ := (Option.any_eq_true _ _).mp hrun
  obtain ⟨call, hcall, hname⟩ := (Option.any_eq_true _ _).mp hany
  obtain ⟨s', others, hgoes, haccepted, hin, hprocessed⟩ := mailbox_progress _ hs hcall
  refine ⟨s, s', hs, hgoes, ⟨call, ?_, of_decide_eq_true hname⟩, hprocessed⟩
  rw [haccepted]
  exact List.mem_append_right _ hin

end MorningProjects.ELibrary
