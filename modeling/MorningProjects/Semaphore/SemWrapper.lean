import Mathlib.Tactic

/-!
# Semaphores over one mutex

`sem_wrapper.c` keeps one mutex and one counter for all semaphores; a semaphore
is only a condition variable. A function runs from `pthread_mutex_lock` until it
returns, or until it releases the mutex in a condition wait; these critical
sections are the atomic steps of a thread.
-/
namespace MorningProjects.Semaphore

def etimedout : ℤ := 110

def eagain : ℤ := 11

/-- How a critical section ends: in a condition wait, which releases the mutex, or with the
return of the function, the mutex still locked or not. -/
inductive Section where
  | waits
  | returns (status : ℤ) (value : UInt32) (locked : Bool)
  deriving DecidableEq

/-- What `sem_wrapper_wait`, `sem_wrapper_trywait` and `sem_wrapper_timedwait` have of their own. -/
structure WaitFunction where
  /-- `status` before the loop. -/
  status : ℤ
  /-- `status` after a condition wait with this result; the loop breaks unless it is 0. -/
  waited : (result : ℤ) → (value : UInt32) → ℤ
  /-- `status` after `pthread_mutex_unlock`. -/
  unlocked : (unlock : ℤ) → ℤ

namespace WaitFunction

variable (f : WaitFunction) (lock unlock : ℤ)

/-- After the loop. Only with `status` 0 is the mutex unlocked. -/
def afterLoop (status : ℤ) (value : UInt32) : Section :=
  if status = 0 then .returns (f.unlocked unlock) (value - 1) (unlock ≠ 0)
  else .returns status value true

/-- The test of the loop `while(0 == f_sem_value)`. -/
def loop (status : ℤ) (value : UInt32) : Section :=
  if value = 0 then .waits else f.afterLoop unlock status value

/-- The function up to its first condition wait. -/
def enter (value : UInt32) : Section :=
  if lock ≠ -1 then f.loop unlock f.status value else .returns f.status value false

/-- The function from the return of a condition wait. -/
def wake (result : ℤ) (value : UInt32) : Section :=
  if f.waited result value ≠ 0 then f.afterLoop unlock (f.waited result value) value
  else f.loop unlock (f.waited result value) value

end WaitFunction

def semWrapperWait : WaitFunction where
  status := 0
  waited result _ := if result ≠ 0 then -1 else 0
  unlocked unlock := if unlock = -1 then -1 else 0

def semWrapperTrywait : WaitFunction where
  status := 0
  waited result value :=
    if result = etimedout ∧ value = 0 then eagain else if result ≠ 0 then -1 else result
  unlocked unlock := if unlock ≠ -1 then -1 else 0

def semWrapperTimedwait : WaitFunction where
  status := -1
  waited result value :=
    if result = etimedout ∧ value = 0 then result else if result ≠ 0 then -1 else result
  unlocked unlock := if unlock ≠ -1 then -1 else 0

def semWrapperPost (lock broadcast unlock : ℤ) (value : UInt32) : Section :=
  if lock ≠ -1 then
    if broadcast ≠ -1 then
      if unlock = -1 then .returns (-1) (value + 1) true
      else .returns 0 (value + 1) (unlock ≠ 0)
    else .returns (-1) (value + 1) true
  else .returns (-1) value false

/-- `sem_wrapper_init`: the new value of `f_sem_value` is the same for all semaphores. -/
def semWrapperInit (lock unlock : ℤ) (value semValue : UInt32) : Section :=
  if lock ≠ -1 then
    if unlock = -1 then .returns (-1) value true else .returns 0 value (unlock ≠ 0)
  else .returns (-1) semValue false

/-! ### Threads -/

/-- The functions that threads call; a broadcast returns an error number or 0. -/
inductive Call where
  | wait
  | trywait
  | timedwait
  | post (broadcast : ℕ)
  deriving DecidableEq

/-- A call from the lock on, with mutex operations that return 0. -/
def Call.enter (value : UInt32) : Call → Section
  | .wait => semWrapperWait.enter 0 0 value
  | .trywait => semWrapperTrywait.enter 0 0 value
  | .timedwait => semWrapperTimedwait.enter 0 0 value
  | .post broadcast => semWrapperPost 0 broadcast 0 value

/-- A call from the return of a condition wait on; `sem_wrapper_post` has none. -/
def Call.wake (result : ℕ) (value : UInt32) : Call → Option Section
  | .wait => some (semWrapperWait.wake 0 result value)
  | .trywait => some (semWrapperTrywait.wake 0 result value)
  | .timedwait => some (semWrapperTimedwait.wake 0 result value)
  | .post _ => none

def Call.isPost : Call → Bool
  | .post _ => true
  | _ => false

inductive Phase (S : Type*) where
  | idle
  | calling (call : Call) (sem : S)
  | waiting (call : Call) (sem : S)
  deriving DecidableEq

/-- The return of a wait, with the value before and after its last critical section. -/
structure Return (S : Type*) where
  sem : S
  status : ℤ
  before : UInt32
  after : UInt32
  deriving DecidableEq

/-- The globals of `sem_wrapper.c` and the threads, and what was initialised, posted and
waited for. -/
structure SemState (T S : Type*) where
  mutex : Option T
  value : UInt32
  phase : T → Phase S
  initial : S → Option ℕ
  posts : S → ℕ
  waits : S → ℕ
  returned : List (Return S)

inductive Action (T S : Type*) where
  | call (thread : T) (call : Call) (sem : S)
  | enter (thread : T)
  | wake (thread : T) (result : ℕ)

variable {T S : Type*} [DecidableEq T] [DecidableEq S]

namespace SemState

def new : SemState T S := ⟨none, 0, fun _ => .idle, fun _ => none, fun _ => 0, fun _ => 0, []⟩

/-- One call of `sem_wrapper_init`, with mutex operations that return 0. -/
def init (s : SemState T S) (sem : S) (value : UInt32) : SemState T S :=
  match semWrapperInit 0 0 value s.value with
  | .returns 0 value _ =>
    { s with value := value, initial := Function.update s.initial sem (some value.toNat) }
  | _ => s

/-- The state after the semaphores have been initialised. -/
def initAll (inits : List (S × UInt32)) : SemState T S :=
  inits.foldl (fun s p => s.init p.1 p.2) new

def leave (s : SemState T S) (i : T) (call : Call) (sem : S) : Section → SemState T S
  | .waits => { s with phase := Function.update s.phase i (.waiting call sem) }
  | .returns status value locked =>
    let s := { s with
      mutex := if locked then some i else none
      phase := Function.update s.phase i .idle
      value := value
      returned := if call.isPost then s.returned else ⟨sem, status, s.value, value⟩ :: s.returned }
    if status = 0 then
      if call.isPost then { s with posts := Function.update s.posts sem (s.posts sem + 1) }
      else { s with waits := Function.update s.waits sem (s.waits sem + 1) }
    else s

/-- No call is in progress. -/
def Quiet (s : SemState T S) : Prop := ∀ i, s.phase i = .idle

end SemState

def semStep (s : SemState T S) : Action T S → Option (SemState T S)
  | .call i call sem =>
    if s.phase i = .idle ∧ (s.initial sem).isSome then
      some { s with phase := Function.update s.phase i (.calling call sem) }
    else none
  | .enter i =>
    match s.phase i, s.mutex with
    | .calling call sem, none => some (s.leave i call sem (call.enter s.value))
    | _, _ => none
  | .wake i result =>
    match s.phase i, s.mutex with
    | .waiting call sem, none => (call.wake result s.value).map (s.leave i call sem)
    | _, _ => none

end MorningProjects.Semaphore
