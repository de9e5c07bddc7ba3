import MorningProjects.ELibrary.Exchange

/-!
# The slot between senders and exchange thread

Any number of threads call `notifyExchange` and one thread runs the exchange. Mutex
and condition variable work, a wait may end without a signal, and nobody shuts the
exchange down. The slot is `g_systemEvent` with `g_sysEvtPayload`; a call is accepted
when its event is copied, and processed when the exchange thread clears the slot.
-/
namespace MorningProjects.ELibrary
open Library

inductive SystemEvent where
  | undef
  | msgSent
  | shutdown
  deriving DecidableEq, Repr

/-- A call of `notifyExchange`, with what lies behind its strings in memory. -/
structure NotifyCall where
  hostName : CString
  frdName : CString
  msg : CString
  after : ℕ → ℕ → UInt8

def NotifyCall.systemMsg (call : NotifyCall) : List UInt8 :=
  ELibrary.systemMsg call.hostName call.frdName call.msg call.after

/-- Names and text leave room for their terminators. -/
def NotifyCall.Fits (call : NotifyCall) : Prop :=
  call.hostName.strlen < maxNameLength ∧ call.frdName.strlen < maxNameLength ∧
    call.msg.strlen < maxMsgLength

inductive SenderPc where
  | idle
  | wantLock (call : NotifyCall)
  | locked (call : NotifyCall)
  | freeSlot (call : NotifyCall)
  | eventSet (call : NotifyCall)
  | copied
  | signalled
  | busy (call : NotifyCall)
  | sleeping (call : NotifyCall)

/-- Where the exchange thread is. It handles a copy of the payload. -/
inductive ExchangePc where
  | starting
  | wantLock
  | testing
  | waiting
  | handling (payload : List UInt8)
  | ended

def SenderPc.holdsLock : SenderPc → Bool
  | .idle | .wantLock _ | .sleeping _ => false
  | .locked _ | .freeSlot _ | .eventSet _ | .copied | .signalled | .busy _ => true

def ExchangePc.holdsLock : ExchangePc → Bool
  | .starting | .wantLock | .waiting | .ended => false
  | .testing | .handling _ => true

inductive Party (ι : Type*) where
  | sender (i : ι)
  | exchange
  deriving DecidableEq

/-- The shared variables, the threads, and the calls accepted and payloads processed so far. -/
structure Mailbox (ι : Type*) where
  lock : Option (Party ι)
  event : SystemEvent
  payload : List UInt8
  sender : ι → SenderPc
  exchange : ExchangePc
  accepted : List NotifyCall
  processed : List (List UInt8)

inductive MailboxAction (ι : Type*) where
  | notify (i : ι) (call : NotifyCall)
  | lock (i : ι)
  | test (i : ι)
  | setEvent (i : ι)
  | copy (i : ι)
  | signal (i : ι)
  | unlock (i : ι)
  | retry (i : ι)
  | exchangeStart
  | exchangeLock
  | exchangeTest
  | exchangeWake
  | exchangeClear

variable {ι : Type*}

def Mailbox.init : Mailbox ι :=
  ⟨none, .undef, List.replicate maxEventLength 0, fun _ => .idle, .starting, [], []⟩

def Mailbox.slot (s : Mailbox ι) : List (List UInt8) :=
  if s.event = .msgSent then [s.payload] else []

def Mailbox.Writing (s : Mailbox ι) : Prop := ∃ i call, s.sender i = .eventSet call

def Mailbox.holdsLock (s : Mailbox ι) : Party ι → Bool
  | .sender i => (s.sender i).holdsLock
  | .exchange => s.exchange.holdsLock

section Step

variable [DecidableEq ι]

def Mailbox.setSender (s : Mailbox ι) (i : ι) (pc : SenderPc) : Mailbox ι :=
  { s with sender := Function.update s.sender i pc }

/-- One statement of one thread, where it can be executed. -/
def mailboxStep (s : Mailbox ι) : MailboxAction ι → Option (Mailbox ι)
  | .notify i call =>
    match s.sender i with
    | .idle => some (s.setSender i (.wantLock call))
    | _ => none
  | .lock i =>
    match s.sender i, s.lock with
    | .wantLock call, none => some { s.setSender i (.locked call) with lock := some (.sender i) }
    | _, _ => none
  | .test i =>
    match s.sender i with
    | .locked call =>
      some (s.setSender i (if s.event = .undef then .freeSlot call else .busy call))
    | _ => none
  | .setEvent i =>
    match s.sender i with
    | .freeSlot call => some { s.setSender i (.eventSet call) with event := .msgSent }
    | _ => none
  | .copy i =>
    match s.sender i with
    | .eventSet call =>
      some { s.setSender i .copied with
        payload := call.systemMsg, accepted := s.accepted ++ [call] }
    | _ => none
  | .signal i =>
    match s.sender i with
    | .copied =>
      some { s.setSender i .signalled with
        exchange := match s.exchange with
          | .waiting => .wantLock
          | pc => pc }
    | _ => none
  | .unlock i =>
    match s.sender i with
    | .signalled => some { s.setSender i .idle with lock := none }
    | .busy call => some { s.setSender i (.sleeping call) with lock := none }
    | _ => none
  | .retry i =>
    match s.sender i with
    | .sleeping call => some (s.setSender i (.wantLock call))
    | _ => none
  | .exchangeStart =>
    match s.exchange with
    | .starting => some { s with exchange := .wantLock }
    | _ => none
  | .exchangeLock =>
    match s.exchange, s.lock with
    | .wantLock, none => some { s with exchange := .testing, lock := some .exchange }
    | _, _ => none
  | .exchangeTest =>
    match s.exchange, s.event with
    -- waiting gives up the mutex
    | .testing, .undef => some { s with exchange := .waiting, lock := none }
    | .testing, .msgSent => some { s with exchange := .handling s.payload }
    | .testing, .shutdown => some { s with exchange := .ended, lock := none }
    | _, _ => none
  | .exchangeWake =>
    match s.exchange with
    | .waiting => some { s with exchange := .wantLock }
    | _ => none
  | .exchangeClear =>
    match s.exchange with
    | .handling payload =>
      some { s with
        exchange := .testing, event := .undef, processed := s.processed ++ [payload] }
    | _ => none

end Step

/-- The invariant. Only the holder of the mutex is inside, and what has been accepted is
what has been processed, then what is in the slot. -/
structure Mailbox.Delivers (s : Mailbox ι) : Prop where
  mutex : ∀ p, s.holdsLock p = true → s.lock = some p
  free : ∀ i call, s.sender i = .freeSlot call → s.event = .undef
  handling : ∀ payload, s.exchange = .handling payload → s.event = .msgSent ∧ s.payload = payload
  between : ¬ s.Writing → s.accepted.map NotifyCall.systemMsg = s.processed ++ s.slot
  writing : s.Writing →
    s.event = .msgSent ∧ s.accepted.map NotifyCall.systemMsg = s.processed

theorem delivers_init : (Mailbox.init : Mailbox ι).Delivers := by
  constructor
  · intro p hp
    cases p <;> cases hp
  · intro i call hi
    cases hi
  · intro payload hx
    cases hx
  · intro _
    rfl
  · rintro ⟨i, call, hi⟩
    cases hi

section Exclusive

variable {s : Mailbox ι}

theorem Mailbox.Delivers.exclusive (h : s.Delivers) {p q : Party ι}
    (hp : s.holdsLock p = true) (hq : s.holdsLock q = true) : p = q :=
  Option.some.inj ((h.mutex p hp).symm.trans (h.mutex q hq))

theorem Mailbox.Delivers.sender_eq (h : s.Delivers) {i j : ι}
    (hi : (s.sender i).holdsLock = true) (hj : (s.sender j).holdsLock = true) : j = i := by
  have hji : Party.sender j = Party.sender i := h.exclusive hj hi
  exact Party.sender.inj hji

theorem Mailbox.Delivers.not_handling (h : s.Delivers) {i : ι}
    (hi : (s.sender i).holdsLock = true) (payload : List UInt8) :
    s.exchange ≠ .handling payload := by
  intro hx
  have hexchange : s.holdsLock .exchange = true := by
    rw [Mailbox.holdsLock, hx]
    rfl
  have hne : Party.exchange = Party.sender i := h.exclusive hexchange hi
  cases hne

/-- The exchange thread moves on and leaves the slot as it is. -/
theorem Mailbox.Delivers.moveExchange (h : s.Delivers) (pc : ExchangePc)
    (lock : Option (Party ι)) (hself : pc.holdsLock = true → lock = some .exchange)
    (hother : ∀ i, (s.sender i).holdsLock = true → lock = some (.sender i))
    (hhandling : ∀ payload, pc = .handling payload → s.event = .msgSent ∧ s.payload = payload) :
    Mailbox.Delivers { s with exchange := pc, lock := lock } := by
  constructor
  · intro p hp
    cases p with
    | sender i => exact hother i hp
    | exchange => exact hself hp
  · exact h.free
  · exact hhandling
  · exact h.between
  · exact h.writing

theorem Mailbox.Delivers.clear (h : s.Delivers) {payload : List UInt8}
    (hx : s.exchange = .handling payload) :
    Mailbox.Delivers { s with
      exchange := .testing, event := .undef, processed := s.processed ++ [payload] } := by
  have hholds : s.holdsLock .exchange = true := by rw [Mailbox.holdsLock, hx]; rfl
  obtain ⟨hevent, hpayload⟩ := h.handling payload hx
  have hnot : ¬ s.Writing := by
    rintro ⟨j, call, hj⟩
    have hj' := h.exclusive (p := .sender j) (by rw [Mailbox.holdsLock, hj]; rfl) hholds
    cases hj'
  constructor
  · intro p hp
    cases p with
    | sender j => exact h.mutex (.sender j) hp
    | exchange => exact h.mutex .exchange hholds
  · intro _ _ _
    rfl
  · intro _ hhandling
    cases hhandling
  · intro _
    have hbetween := h.between hnot
    rw [Mailbox.slot, if_pos hevent, hpayload] at hbetween
    change s.accepted.map NotifyCall.systemMsg = s.processed ++ [payload] ++ []
    rw [List.append_nil, hbetween]
  · intro hw
    exact (hnot hw).elim

theorem Mailbox.Delivers.acquire (h : s.Delivers) (hlock : s.lock = none) (p : Party ι) :
    s.holdsLock p = false := by
  rw [← Bool.not_eq_true]
  intro hp
  have hsome := h.mutex p hp
  rw [hlock] at hsome
  cases hsome

/-- The exchange thread finds the slot empty and waits, or takes the payload out. -/
theorem Mailbox.Delivers.exchangeTest (h : s.Delivers) (hx : s.exchange = .testing) :
    Mailbox.Delivers { s with exchange := .waiting, lock := none } ∧
      (s.event = .msgSent → Mailbox.Delivers { s with exchange := .handling s.payload }) ∧
      Mailbox.Delivers { s with exchange := .ended, lock := none } := by
  have hholds : s.holdsLock .exchange = true := by
    rw [Mailbox.holdsLock, hx]
    rfl
  have hnobody : ∀ i, (s.sender i).holdsLock = true → none = some (Party.sender i) := by
    intro i hi
    have hne : Party.sender i = Party.exchange := h.exclusive hi hholds
    cases hne
  refine ⟨?_, ?_, ?_⟩
  · apply h.moveExchange .waiting none _ hnobody <;> simp [ExchangePc.holdsLock]
  · intro hevent
    apply h.moveExchange (.handling s.payload) s.lock (fun _ => h.mutex .exchange hholds)
      (fun i hi => h.mutex (.sender i) hi)
    rintro payload ⟨⟩
    exact ⟨hevent, rfl⟩
  · apply h.moveExchange .ended none _ hnobody <;> simp [ExchangePc.holdsLock]

theorem Mailbox.Delivers.exchangeLock (h : s.Delivers) (hlock : s.lock = none) :
    Mailbox.Delivers { s with exchange := .testing, lock := some .exchange } := by
  apply h.moveExchange .testing (some .exchange) (fun _ => rfl)
  · intro i hi
    rw [← Mailbox.holdsLock, h.acquire hlock] at hi
    cases hi
  · intro payload hpc
    cases hpc

end Exclusive

section Moves

variable [DecidableEq ι] {s : Mailbox ι}

theorem setSender_sender (s : Mailbox ι) (i : ι) (pc : SenderPc) (j : ι) :
    (s.setSender i pc).sender j = if j = i then pc else s.sender j :=
  Function.update_apply s.sender i pc j

theorem setSender_eq_iff {i j : ι} {pc pc' : SenderPc} :
    (s.setSender i pc).sender j = pc' ↔ j = i ∧ pc = pc' ∨ j ≠ i ∧ s.sender j = pc' := by
  rw [setSender_sender]
  by_cases hji : j = i
  · simp [hji]
  · simp [hji]

/-- Inside, a thread keeps the others out whatever it does next. -/
theorem Mailbox.Delivers.mutex_setSender (h : s.Delivers) {i : ι}
    (hi : (s.sender i).holdsLock = true) (pc : SenderPc) (p : Party ι)
    (hp : (s.setSender i pc).holdsLock p = true) : s.lock = some p := by
  apply h.mutex
  cases p with
  | sender j =>
    by_cases hji : j = i
    · rwa [hji]
    · rwa [Mailbox.holdsLock, setSender_sender, if_neg hji] at hp
  | exchange => exact hp

/-- A thread that does not touch the slot moves on. It may take or release the mutex, and
wake the exchange thread. -/
theorem Mailbox.Delivers.moveSender (h : s.Delivers) (i : ι) (pc : SenderPc)
    (lock : Option (Party ι)) (exchange : ExchangePc)
    (hself : pc.holdsLock = true → lock = some (.sender i))
    (hother : ∀ p, p ≠ .sender i → s.holdsLock p = true → lock = some p)
    (hexchange : exchange = s.exchange ∨ exchange = .wantLock)
    (hbefore : ∀ call, s.sender i ≠ .eventSet call) (hafter : ∀ call, pc ≠ .eventSet call)
    (hfree : ∀ call, pc = .freeSlot call → s.event = .undef) :
    Mailbox.Delivers { s.setSender i pc with lock := lock, exchange := exchange } := by
  have hwriting : Mailbox.Writing { s.setSender i pc with lock := lock, exchange := exchange } ↔
      s.Writing := by
    constructor
    · rintro ⟨j, call, hj⟩
      rcases setSender_eq_iff.mp hj with ⟨-, hpc⟩ | ⟨-, hj⟩
      · exact (hafter call hpc).elim
      · exact ⟨j, call, hj⟩
    · rintro ⟨j, call, hj⟩
      have hji : j ≠ i := by
        rintro rfl
        exact hbefore call hj
      exact ⟨j, call, setSender_eq_iff.mpr (.inr ⟨hji, hj⟩)⟩
  constructor
  · intro p hp
    by_cases hpi : p = .sender i
    · subst hpi
      apply hself
      change (Function.update s.sender i pc i).holdsLock = true at hp
      rwa [Function.update_self] at hp
    · apply hother p hpi
      cases p with
      | sender j =>
        have hji : j ≠ i := fun hji => hpi (hji ▸ rfl)
        change (Function.update s.sender i pc j).holdsLock = true at hp
        rwa [Function.update_of_ne hji] at hp
      | exchange =>
        change exchange.holdsLock = true at hp
        rcases hexchange with rfl | rfl
        · exact hp
        · cases hp
  · intro j call hj
    rcases setSender_eq_iff.mp hj with ⟨-, hpc⟩ | ⟨-, hj⟩
    · exact hfree call hpc
    · exact h.free j call hj
  · intro payload hx
    rcases hexchange with rfl | rfl
    · exact h.handling payload hx
    · cases hx
  · intro hno
    exact h.between fun hw => hno (hwriting.mpr hw)
  · intro hw
    exact h.writing (hwriting.mp hw)

/-- The thread that has found the slot free sets the event. -/
theorem Mailbox.Delivers.setEvent (h : s.Delivers) {i : ι} {call : NotifyCall}
    (hi : s.sender i = .freeSlot call) :
    Mailbox.Delivers { s.setSender i (.eventSet call) with event := .msgSent } := by
  have hholds : (s.sender i).holdsLock = true := by
    rw [hi]
    rfl
  have hnot : ¬ s.Writing := by
    rintro ⟨j, call', hj⟩
    have hji := h.sender_eq hholds (j := j) (by rw [hj]; rfl)
    rw [hji, hi] at hj
    cases hj
  constructor
  · exact h.mutex_setSender hholds (.eventSet call)
  · intro j call' hj
    rcases setSender_eq_iff.mp hj with ⟨-, hpc⟩ | ⟨hji, hj⟩
    · cases hpc
    · exact (hji (h.sender_eq hholds (by rw [hj]; rfl))).elim
  · intro payload hx
    exact (h.not_handling hholds payload hx).elim
  · intro hno
    exact (hno ⟨i, call, Function.update_self ..⟩).elim
  · intro _
    refine ⟨rfl, ?_⟩
    have hbetween := h.between hnot
    rwa [Mailbox.slot, h.free i call hi, if_neg (by decide), List.append_nil] at hbetween

/-- The thread that has set the event copies the payload. -/
theorem Mailbox.Delivers.copy (h : s.Delivers) {i : ι} {call : NotifyCall}
    (hi : s.sender i = .eventSet call) :
    Mailbox.Delivers { s.setSender i .copied with
      payload := call.systemMsg, accepted := s.accepted ++ [call] } := by
  have hholds : (s.sender i).holdsLock = true := by
    rw [hi]
    rfl
  obtain ⟨hevent, haccepted⟩ := h.writing ⟨i, call, hi⟩
  constructor
  · exact h.mutex_setSender hholds .copied
  · intro j call' hj
    rcases setSender_eq_iff.mp hj with ⟨-, hpc⟩ | ⟨-, hj⟩
    · cases hpc
    · exact h.free j call' hj
  · intro payload hx
    exact (h.not_handling hholds payload hx).elim
  · intro _
    change (s.accepted ++ [call]).map NotifyCall.systemMsg =
      s.processed ++ if s.event = .msgSent then [call.systemMsg] else []
    rw [List.map_append, haccepted, if_pos hevent]
    rfl
  · rintro ⟨j, call', hj⟩
    rcases setSender_eq_iff.mp hj with ⟨-, hpc⟩ | ⟨hji, hj⟩
    · cases hpc
    · exact (hji (h.sender_eq hholds (by rw [hj]; rfl))).elim

end Moves

section Run

variable [DecidableEq ι] {s s' : Mailbox ι}

/-- A step inside the critical section, or outside of it, that leaves the slot alone. -/
theorem Mailbox.Delivers.stay (h : s.Delivers) (i : ι) (pc : SenderPc) (exchange : ExchangePc)
    (hholds : pc.holdsLock = true → (s.sender i).holdsLock = true)
    (hexchange : exchange = s.exchange ∨ exchange = .wantLock)
    (hbefore : ∀ call, s.sender i ≠ .eventSet call) (hafter : ∀ call, pc ≠ .eventSet call)
    (hfree : ∀ call, pc = .freeSlot call → s.event = .undef) :
    Mailbox.Delivers { s.setSender i pc with exchange := exchange } := by
  apply h.moveSender i pc s.lock exchange _ _ hexchange hbefore hafter hfree
  · intro hpc
    exact h.mutex (.sender i) (hholds hpc)
  · intro p _ hp
    exact h.mutex p hp

theorem Mailbox.Delivers.lock (h : s.Delivers) {i : ι} {call : NotifyCall}
    (hi : s.sender i = .wantLock call) (hlock : s.lock = none) :
    Mailbox.Delivers { s.setSender i (.locked call) with lock := some (.sender i) } := by
  apply h.moveSender i (.locked call) (some (.sender i)) s.exchange _ _ (.inl rfl)
  · simp [hi]
  · simp
  · simp
  · intro _
    rfl
  · intro p _ hp
    rw [h.acquire hlock p] at hp
    cases hp

theorem Mailbox.Delivers.release (h : s.Delivers) (i : ι) (pc : SenderPc)
    (hholds : (s.sender i).holdsLock = true) (hout : pc.holdsLock = false)
    (hbefore : ∀ call, s.sender i ≠ .eventSet call) (hafter : ∀ call, pc ≠ .eventSet call)
    (hfree : ∀ call, pc ≠ .freeSlot call) :
    Mailbox.Delivers { s.setSender i pc with lock := none } := by
  apply h.moveSender i pc none s.exchange _ _ (.inl rfl) hbefore hafter
  · intro call hpc
    exact (hfree call hpc).elim
  · intro hpc
    rw [hout] at hpc
    cases hpc
  · intro p hp hpholds
    exact (hp (h.exclusive hpholds hholds)).elim

theorem Mailbox.Delivers.step (h : s.Delivers) {action : MailboxAction ι}
    (hs : mailboxStep s action = some s') : s'.Delivers := by
  cases action with
  | notify i call =>
    cases hpc : s.sender i with
    | idle =>
      simp only [mailboxStep, hpc] at hs
      cases hs
      apply h.stay i (.wantLock call) s.exchange _ (.inl rfl) <;> simp [hpc, SenderPc.holdsLock]
    | _ => simp [mailboxStep, hpc] at hs
  | lock i =>
    cases hpc : s.sender i with
    | wantLock call =>
      cases hlock : s.lock with
      | none =>
        simp only [mailboxStep, hpc, hlock] at hs
        cases hs
        exact h.lock hpc hlock
      | some p => simp [mailboxStep, hpc, hlock] at hs
    | _ => simp [mailboxStep, hpc] at hs
  | test i =>
    cases hpc : s.sender i with
    | locked call =>
      simp only [mailboxStep, hpc] at hs
      cases hs
      by_cases hevent : s.event = .undef
      · rw [if_pos hevent]
        apply h.stay i (.freeSlot call) s.exchange _ (.inl rfl) <;>
          simp [hpc, SenderPc.holdsLock, hevent]
      · rw [if_neg hevent]
        apply h.stay i (.busy call) s.exchange _ (.inl rfl) <;> simp [hpc, SenderPc.holdsLock]
    | _ => simp [mailboxStep, hpc] at hs
  | setEvent i =>
    cases hpc : s.sender i with
    | freeSlot call =>
      simp only [mailboxStep, hpc] at hs
      cases hs
      exact h.setEvent hpc
    | _ => simp [mailboxStep, hpc] at hs
  | copy i =>
    cases hpc : s.sender i with
    | eventSet call =>
      simp only [mailboxStep, hpc] at hs
      cases hs
      exact h.copy hpc
    | _ => simp [mailboxStep, hpc] at hs
  | signal i =>
    cases hpc : s.sender i with
    | copied =>
      simp only [mailboxStep, hpc] at hs
      cases hs
      apply h.stay i .signalled
      · simp [hpc, SenderPc.holdsLock]
      · cases s.exchange <;> simp
      · simp [hpc]
      · simp
      · simp
    | _ => simp [mailboxStep, hpc] at hs
  | unlock i =>
    cases hpc : s.sender i with
    | signalled =>
      simp only [mailboxStep, hpc] at hs
      cases hs
      apply h.release i .idle <;> simp [hpc, SenderPc.holdsLock]
    | busy call =>
      simp only [mailboxStep, hpc] at hs
      cases hs
      apply h.release i (.sleeping call) <;> simp [hpc, SenderPc.holdsLock]
    | _ => simp [mailboxStep, hpc] at hs
  | retry i =>
    cases hpc : s.sender i with
    | sleeping call =>
      simp only [mailboxStep, hpc] at hs
      cases hs
      apply h.stay i (.wantLock call) s.exchange _ (.inl rfl) <;> simp [hpc, SenderPc.holdsLock]
    | _ => simp [mailboxStep, hpc] at hs
  | exchangeStart =>
    cases hpc : s.exchange with
    | starting =>
      simp only [mailboxStep, hpc] at hs
      cases hs
      apply h.moveExchange .wantLock s.lock _ (fun i hi => h.mutex (.sender i) hi) <;>
        simp [ExchangePc.holdsLock]
    | _ => simp [mailboxStep, hpc] at hs
  | exchangeLock =>
    cases hpc : s.exchange with
    | wantLock =>
      cases hlock : s.lock with
      | none =>
        simp only [mailboxStep, hpc, hlock] at hs
        cases hs
        exact h.exchangeLock hlock
      | some p => simp [mailboxStep, hpc, hlock] at hs
    | _ => simp [mailboxStep, hpc] at hs
  | exchangeTest =>
    cases hpc : s.exchange with
    | testing =>
      obtain ⟨hwait, htake, hend⟩ := h.exchangeTest hpc
      cases hevent : s.event with
      | undef =>
        simp only [mailboxStep, hpc, hevent] at hs
        cases hs
        rwa [hevent] at hwait
      | msgSent =>
        have hhandling := htake hevent
        simp only [mailboxStep, hpc, hevent] at hs
        cases hs
        rwa [hevent] at hhandling
      | shutdown =>
        simp only [mailboxStep, hpc, hevent] at hs
        cases hs
        rwa [hevent] at hend
    | _ => simp [mailboxStep, hpc] at hs
  | exchangeWake =>
    cases hpc : s.exchange with
    | waiting =>
      simp only [mailboxStep, hpc] at hs
      cases hs
      apply h.moveExchange .wantLock s.lock _ (fun i hi => h.mutex (.sender i) hi) <;>
        simp [ExchangePc.holdsLock]
    | _ => simp [mailboxStep, hpc] at hs
  | exchangeClear =>
    cases hpc : s.exchange with
    | handling payload =>
      simp only [mailboxStep, hpc] at hs
      cases hs
      exact h.clear hpc
    | _ => simp [mailboxStep, hpc] at hs

/-- The strings that the exchange thread reads out of an accepted event are those of the
call, if they leave room for their terminators. -/
def NotifyCall.message (call : NotifyCall) : ExchangeMsg :=
  ⟨call.hostName, call.frdName, call.msg⟩

theorem NotifyCall.Fits.decodeMsg {call : NotifyCall} (h : call.Fits) :
    decodeMsg call.systemMsg = some call.message :=
  decodeMsg_systemMsg call.after h.1 h.2.1 (le_of_lt h.2.2)

/-- In every state of every interleaving, the payloads processed and then the payload in
the slot, which holds nothing yet while it is being written, are those of the calls
accepted, in the same order, and decode to what these calls have encoded. -/
theorem mailbox_run (actions : List (MailboxAction ι)) (s : Mailbox ι)
    (hs : runFrom mailboxStep Mailbox.init actions = some s) :
    (¬ s.Writing → s.accepted.map NotifyCall.systemMsg = s.processed ++ s.slot) ∧
      (s.Writing → s.accepted.map NotifyCall.systemMsg = s.processed) ∧
      ((∀ call ∈ s.accepted, call.Fits) → ¬ s.Writing →
        (s.processed ++ s.slot).map decodeMsg =
          s.accepted.map fun call => some call.message) := by
  have h : s.Delivers := by
    apply runFrom_invariant_of_step _ delivers_init hs
    intro t action t' ht hstep
    exact ht.step hstep
  refine ⟨h.between, fun hw => (h.writing hw).2, ?_⟩
  intro hfits hnot
  rw [← h.between hnot, List.map_map]
  apply List.map_congr_left
  intro call hcall
  exact (hfits call hcall).decodeMsg

end Run

/-- Two senders, of which the second finds the slot occupied, and a spurious wake-up. -/
def twoSenders : List (MailboxAction Bool) :=
  [.exchangeStart, .exchangeLock, .exchangeTest,
    .notify false ⟨anna, ben, hello, fun _ _ => 0⟩, .lock false, .test false, .setEvent false,
    .copy false, .signal false, .unlock false,
    .notify true ⟨ben, anna, hello, fun _ _ => 0⟩, .lock true, .test true, .unlock true,
    .exchangeLock, .exchangeTest, .exchangeClear, .exchangeTest, .exchangeWake,
    .retry true, .lock true, .test true, .setEvent true, .copy true]

theorem mailbox_run_example :
    ∃ s, runFrom mailboxStep Mailbox.init twoSenders = some s ∧
      (s.processed ++ s.slot).map decodeMsg =
        [some ⟨anna, ben, hello⟩, some ⟨ben, anna, hello⟩] := by
  have hfits : ∀ call ∈ [(⟨anna, ben, hello, fun _ _ => 0⟩ : NotifyCall),
      ⟨ben, anna, hello, fun _ _ => 0⟩], call.Fits := by
    simp only [List.forall_mem_cons, NotifyCall.Fits]
    decide
  refine ⟨_, rfl, (mailbox_run twoSenders _ rfl).2.2 hfits ?_⟩
  rintro ⟨i, call, hi⟩
  cases i <;> cases hi

end MorningProjects.ELibrary
