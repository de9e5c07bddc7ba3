import MorningProjects.ELibrary.Server
import MorningProjects.Library.Runs

/-!
# What becomes of a posted job

Every assigned job is in the job centre, in the hands of one worker, or
dispatched, and every dispatched job is about to be answered or answered. The
jobs a worker left its loop on are the exception: the client's would be lost,
and only those of the termination should be there. The daemon's termination jobs
have retrieval type 0, and no worker leaves on them.
-/
namespace MorningProjects.ELibrary
open Library

variable {P R : Type*}

/-! ### The jobs in the hands of a worker -/

namespace WorkerPhase

def toDispatch : WorkerPhase P R → Multiset (Job P)
  | .dispatching job => {job}
  | _ => 0

def toSend : WorkerPhase P R → Multiset (Job P)
  | .sending job _ => {job}
  | _ => 0

def leftOn : WorkerPhase P R → Multiset (Job P)
  | .left job => {job}
  | _ => 0

/-- The worker has not left its loop, or on a job of type `RETRIEVAL_TYPE_WORKER_TERM`. -/
def LeftOnTerm (phase : WorkerPhase P R) : Prop :=
  ∀ job, phase = .left job → job.data.retrievalType = RetrievalType.workerTerm.code

/-- The worker dispatches no termination job, and left only on one. -/
def Parted (phase : WorkerPhase P R) : Prop :=
  ∀ job, (phase = .dispatching job → job.origin ≠ none) ∧ (phase = .left job → job.origin = none)

def Busy (phase : WorkerPhase P R) : Prop := phase.toDispatch ≠ 0 ∨ phase.toSend ≠ 0

instance [DecidableEq P] (phase : WorkerPhase P R) : Decidable phase.Busy :=
  inferInstanceAs (Decidable (phase.toDispatch ≠ 0 ∨ phase.toSend ≠ 0))

@[simp] theorem toDispatch_picking : (.picking : WorkerPhase P R).toDispatch = 0 := rfl

@[simp] theorem toDispatch_dispatching (job : Job P) :
    (.dispatching job : WorkerPhase P R).toDispatch = {job} := rfl

@[simp] theorem toDispatch_sending (job : Job P) (r : ServerResponse R) :
    (.sending job r : WorkerPhase P R).toDispatch = 0 := rfl

@[simp] theorem toDispatch_left (job : Job P) : (.left job : WorkerPhase P R).toDispatch = 0 := rfl

@[simp] theorem toSend_picking : (.picking : WorkerPhase P R).toSend = 0 := rfl

@[simp] theorem toSend_dispatching (job : Job P) :
    (.dispatching job : WorkerPhase P R).toSend = 0 := rfl

@[simp] theorem toSend_sending (job : Job P) (r : ServerResponse R) :
    (.sending job r : WorkerPhase P R).toSend = {job} := rfl

@[simp] theorem toSend_left (job : Job P) : (.left job : WorkerPhase P R).toSend = 0 := rfl

@[simp] theorem leftOn_picking : (.picking : WorkerPhase P R).leftOn = 0 := rfl

@[simp] theorem leftOn_dispatching (job : Job P) :
    (.dispatching job : WorkerPhase P R).leftOn = 0 := rfl

@[simp] theorem leftOn_sending (job : Job P) (r : ServerResponse R) :
    (.sending job r : WorkerPhase P R).leftOn = 0 := rfl

@[simp] theorem leftOn_left (job : Job P) : (.left job : WorkerPhase P R).leftOn = {job} := rfl

variable {phase : WorkerPhase P R} {job : Job P}

theorem mem_toDispatch : job ∈ phase.toDispatch ↔ phase = .dispatching job := by
  cases phase <;> simp [eq_comm]

theorem mem_toSend : job ∈ phase.toSend ↔ ∃ response, phase = .sending job response := by
  cases phase <;> simp [eq_comm]

theorem mem_leftOn : job ∈ phase.leftOn ↔ phase = .left job := by
  cases phase <;> simp [eq_comm]

theorem card_leftOn_le (phase : WorkerPhase P R) : phase.leftOn.card ≤ 1 := by
  cases phase <;> simp

end WorkerPhase

/-- What all workers hold, when one of them changes its phase. -/
theorem sum_update_add {ι α M : Type*} [Fintype ι] [DecidableEq ι] [AddCommMonoid M]
    (g : α → M) (f : ι → α) (i : ι) (a : α) :
    ∑ j, g (Function.update f i a j) + g (f i) = ∑ j, g (f j) + g a := by
  have hcomp : (fun j => g (Function.update f i a j)) =
      Function.update (fun j => g (f j)) i (g a) := by
    ext j
    by_cases h : j = i
    · subst h
      simp
    · simp [h]
  rw [hcomp, Finset.sum_update_of_mem (Finset.mem_univ i),
    Finset.sum_eq_add_sum_sdiff_singleton_of_mem (Finset.mem_univ i) fun j => g (f j)]
  abel

theorem forall_update {ι α : Type*} [DecidableEq ι] {Q : α → Prop} {f : ι → α}
    (h : ∀ j, Q (f j)) {i : ι} {a : α} (ha : Q a) : ∀ j, Q (Function.update f i a j) :=
  (Function.forall_update_iff f fun _ => Q).mpr ⟨ha, fun j _ => h j⟩

namespace ServerState

def Waiting (s : ServerState P R) (k : ℕ) : Prop :=
  s.numJobs ≤ k ∨ (∃ job ∈ s.jobCenter, job.origin = some k) ∨
    ∃ i job, s.worker i = .dispatching job ∧ job.origin = some k

def Sending (s : ServerState P R) (k : ℕ) : Prop :=
  ∃ i job response, s.worker i = .sending job response ∧ job.origin = some k

def dispatches (s : ServerState P R) (k : ℕ) : ℕ :=
  s.dispatched.countP fun job => job.origin = some k

def responses (s : ServerState P R) (k : ℕ) : List UInt32 :=
  (s.sent.filter fun r => r.job.origin = some k).map Sent.connHandle

def Finished (s : ServerState P R) : Prop :=
  s.daemon = .stopped ∧ s.jobCenter = [] ∧ ∀ i, ¬ (s.worker i).Busy

/-- Every posted job is dispatched once and answered once on its own connection, as soon as
it is not on its way there; no termination is answered; in the end all workers have left. -/
structure Answers (jobs : List (JobMsgData P)) (s : ServerState P R) : Prop where
  dispatched : ∀ k data, jobs[k]? = some data →
    s.Waiting k ∧ s.dispatches k = 0 ∨ ¬ s.Waiting k ∧ s.dispatches k = 1
  answered : ∀ k data, jobs[k]? = some data →
    (s.Waiting k ∨ s.Sending k) ∧ s.responses k = [] ∨
      ¬ (s.Waiting k ∨ s.Sending k) ∧ s.responses k = [data.connHandle]
  terminations : ∀ r ∈ s.sent, r.job.origin ≠ none
  left : s.Finished → ∀ i, ∃ job, s.worker i = .left job

/-- A job picked up has the type `RETRIEVAL_TYPE_WORKER_TERM` exactly if it is a termination. -/
def Meets (s : ServerState P R) : ServerAction R → Prop
  | .pick _ => ∀ job ∈ s.jobCenter.head?,
    job.origin = none ↔ job.data.retrievalType = RetrievalType.workerTerm.code
  | _ => True

/-! ### What the daemon assigned -/

def terminations (s : ServerState P R) : ℕ :=
  match s.daemon with
  | .pending => 0
  | .terminating i => i
  | .stopped => maxNumWorkers

/-- The daemon assigns the posted jobs in their order, and then the termination jobs. -/
structure Assigns (jobs : List (JobMsgData P)) (s : ServerState P R) : Prop where
  origins : s.assigned.map Job.origin =
    (List.range s.numJobs).map some ++ List.replicate s.terminations none
  genuine : ∀ job ∈ s.assigned, (job.origin = none → job = terminationJob) ∧
    ∀ k, job.origin = some k → jobs[k]? = some job.data
  queue : s.daemon = .pending → s.queue = (jobs.drop s.numJobs).map .job ++ [.termination]
  bound : ∀ i, s.daemon = .terminating i → i ≤ maxNumWorkers

theorem assigns_start (jobs : List (JobMsgData P)) :
    (start jobs : ServerState P R).Assigns jobs where
  origins := rfl
  genuine _ h := by cases h
  queue _ := rfl
  bound _ h := by cases h

theorem threadSVRDaemon_cases {jobs : List (JobMsgData P)} {s s' : ServerState P R}
    (hs : s.Assigns jobs) (h : s.threadSVRDaemon = some s') :
    (∃ data, s.daemon = .pending ∧ jobs[s.numJobs]? = some data ∧
        s' = { s.assignJob ⟨data, some s.numJobs⟩ with
          queue := (jobs.drop (s.numJobs + 1)).map .job ++ [.termination]
          numJobs := s.numJobs + 1 }) ∨
      (∃ i < maxNumWorkers, s.daemon = .terminating i ∧
        s' = { s.assignJob terminationJob with daemon := .terminating (i + 1) }) ∨
      ∃ daemon queue, daemon ≠ .pending ∧ s' = { s with daemon := daemon, queue := queue } ∧
        s'.terminations = s.terminations ∧ (∀ i, daemon = .terminating i → i ≤ maxNumWorkers) := by
  rw [threadSVRDaemon] at h
  cases hd : s.daemon with
  | pending =>
    have hq := hs.queue hd
    cases hjobs : jobs.drop s.numJobs with
    | nil =>
      rw [hjobs] at hq
      rw [hd, hq] at h
      cases h
      refine .inr (.inr ⟨_, _, by simp, rfl, by simp [terminations, hd], ?_⟩)
      rintro i ⟨⟩
      exact Nat.zero_le _
    | cons data rest =>
      rw [hjobs] at hq
      rw [hd, hq] at h
      cases h
      have hget : jobs[s.numJobs]? = some data := by
        rw [← List.head?_drop, hjobs, List.head?_cons]
      have hrest : jobs.drop (s.numJobs + 1) = rest := by
        rw [← List.tail_drop, hjobs, List.tail_cons]
      refine .inl ⟨data, rfl, hget, ?_⟩
      rw [hrest]
      simp [assignJob, hd]
  | terminating i =>
    rw [hd] at h
    dsimp only at h
    split_ifs at h with hi
    · cases h
      exact .inr (.inl ⟨i, hi, rfl, rfl⟩)
    · cases h
      have heq : i = maxNumWorkers := by
        have hle := hs.bound i hd
        omega
      refine .inr (.inr ⟨.stopped, s.queue, by simp, rfl, by simp [terminations, hd, heq], ?_⟩)
      rintro j ⟨⟩
  | stopped =>
    rw [hd] at h
    cases h

theorem Assigns.assignJob {jobs : List (JobMsgData P)} {s : ServerState P R}
    (h : s.Assigns jobs) {job : Job P}
    (hjob : (job.origin = none → job = terminationJob) ∧
      ∀ k, job.origin = some k → jobs[k]? = some job.data) :
    ∀ job' ∈ (s.assignJob job).assigned, (job'.origin = none → job' = terminationJob) ∧
      ∀ k, job'.origin = some k → jobs[k]? = some job'.data := by
  intro job' hmem
  rcases List.mem_append.mp hmem with hmem | hmem
  · exact h.genuine job' hmem
  · rw [List.mem_singleton.mp hmem]
    exact hjob

theorem Assigns.daemon {jobs : List (JobMsgData P)} {s s' : ServerState P R} (h : s.Assigns jobs)
    (hs : s.threadSVRDaemon = some s') : s'.Assigns jobs := by
  rcases threadSVRDaemon_cases h hs with ⟨data, hd, hget, rfl⟩ | ⟨i, hi, hd, rfl⟩ |
    ⟨daemon, queue, hne, rfl, hcount, hbound⟩
  · constructor
    · have horigins := h.origins
      simp only [terminations, hd, List.replicate_zero, List.append_nil] at horigins
      simp [ServerState.assignJob, terminations, hd, horigins, List.range_succ]
    · apply h.assignJob ⟨by simp, ?_⟩
      rintro k ⟨⟩
      exact hget
    · intro _
      rfl
    · exact h.bound
  · constructor
    · have horigins := h.origins
      simp only [terminations, hd] at horigins
      simp only [ServerState.assignJob, terminations, List.map_append, horigins,
        List.replicate_succ', List.append_assoc]
      rfl
    · apply h.assignJob ⟨fun _ => rfl, ?_⟩
      rintro k ⟨⟩
    · intro hpending
      cases hpending
    · rintro j ⟨⟩
      exact hi
  · constructor
    · rw [hcount]
      exact h.origins
    · exact h.genuine
    · intro hpending
      exact absurd hpending hne
    · exact hbound

/-! ### What the workers keep -/

/-- No assigned job and no dispatched job disappears, responses go to the connection of their
job, and a worker leaves its loop only on `RETRIEVAL_TYPE_WORKER_TERM`. -/
structure Kept (s : ServerState P R) : Prop where
  assigned : (s.assigned : Multiset (Job P)) = s.jobCenter + ∑ i, (s.worker i).toDispatch +
    ∑ i, (s.worker i).leftOn + s.dispatched
  dispatched : (s.dispatched : Multiset (Job P)) = ∑ i, (s.worker i).toSend +
    (s.sent.map Sent.job : List (Job P))
  conn : ∀ r ∈ s.sent, r.connHandle = r.job.data.connHandle
  left : ∀ i, (s.worker i).LeftOnTerm

theorem kept_start (jobs : List (JobMsgData P)) : (start jobs : ServerState P R).Kept where
  assigned := by simp [start, WorkerPhase.toDispatch, WorkerPhase.leftOn]
  dispatched := by simp [start, WorkerPhase.toSend]
  conn _ h := by cases h
  left _ _ h := by cases h

section Steps

variable {s s' : ServerState P R} {i : Worker}

theorem pickJob_cases (h : s.pickJob i = some s') :
    ∃ job jobs phase, s.worker i = .picking ∧ s.jobCenter = job :: jobs ∧
      s' = { s with jobCenter := jobs }.setWorker i phase ∧
      (phase = .dispatching job ∧ job.data.retrievalType ≠ RetrievalType.workerTerm.code ∨
        phase = .left job ∧ job.data.retrievalType = RetrievalType.workerTerm.code) := by
  rw [pickJob] at h
  split at h
  · rename_i job jobs hw hq
    split_ifs at h with hterm
    · cases h
      exact ⟨job, jobs, _, hw, hq, rfl, .inl ⟨rfl, hterm⟩⟩
    · cases h
      exact ⟨job, jobs, _, hw, hq, rfl, .inr ⟨rfl, not_not.mp hterm⟩⟩
  · cases h

theorem dispatchJob_cases {zeroed respond : R} (h : s.dispatchJob zeroed i respond = some s') :
    ∃ job response, s.worker i = .dispatching job ∧
      s' = { s.setWorker i (.sending job response) with dispatched := s.dispatched ++ [job] } := by
  rw [dispatchJob] at h
  split at h
  · rename_i job hw
    cases h
    exact ⟨job, _, hw, rfl⟩
  · cases h

theorem sendData_cases (h : s.sendData i = some s') :
    ∃ job response, s.worker i = .sending job response ∧
      s' = { s.setWorker i .picking with
        sent := s.sent ++ [⟨job, job.data.connHandle, response⟩] } := by
  rw [sendData] at h
  split at h
  · rename_i job response hw
    cases h
    exact ⟨job, response, hw, rfl⟩
  · cases h

theorem Kept.assignJob (h : s.Kept) (job : Job P) : (s.assignJob job).Kept := by
  refine ⟨?_, h.dispatched, h.conn, h.left⟩
  simp only [ServerState.assignJob, ← Multiset.coe_add, h.assigned]
  abel

open WorkerPhase

theorem Kept.pick (h : s.Kept) (hs : s.pickJob i = some s') : s'.Kept := by
  obtain ⟨job, jobs, phase, hw, hq, rfl, hphase⟩ := pickJob_cases hs
  have hcons : (s.jobCenter : Multiset (Job P)) = {job} + jobs := by
    rw [hq, Multiset.singleton_add, Multiset.cons_coe]
  have hD := sum_update_add toDispatch s.worker i phase
  have hL := sum_update_add leftOn s.worker i phase
  have hS := sum_update_add toSend s.worker i phase
  rw [hw] at hD hL hS
  rcases hphase with ⟨rfl, hne⟩ | ⟨rfl, heq⟩
  · simp only [toDispatch_picking, toDispatch_dispatching, leftOn_picking, leftOn_dispatching,
      toSend_picking, toSend_dispatching, add_zero] at hD hL hS
    constructor
    · simp only [setWorker, hD, hL, h.assigned, hcons]
      abel
    · simp only [setWorker, hS, h.dispatched]
    · exact h.conn
    · apply forall_update h.left
      rintro job ⟨⟩
  · simp only [toDispatch_picking, toDispatch_left, leftOn_picking, leftOn_left,
      toSend_picking, toSend_left, add_zero] at hD hL hS
    constructor
    · simp only [setWorker, hD, hL, h.assigned, hcons]
      abel
    · simp only [setWorker, hS, h.dispatched]
    · exact h.conn
    · apply forall_update h.left
      rintro job ⟨⟩
      exact heq

theorem Kept.dispatch (h : s.Kept) {zeroed respond : R}
    (hs : s.dispatchJob zeroed i respond = some s') : s'.Kept := by
  obtain ⟨job, response, hw, rfl⟩ := dispatchJob_cases hs
  have hD := sum_update_add toDispatch s.worker i (.sending job response)
  have hL := sum_update_add leftOn s.worker i (.sending job response)
  have hS := sum_update_add toSend s.worker i (.sending job response)
  rw [hw] at hD hL hS
  simp only [toDispatch_dispatching, toDispatch_sending, leftOn_dispatching, leftOn_sending,
    toSend_dispatching, toSend_sending, add_zero] at hD hL hS
  constructor
  · simp only [setWorker, hL, h.assigned, ← hD, ← Multiset.coe_add, Multiset.coe_singleton]
    abel
  · simp only [setWorker, hS, h.dispatched, ← Multiset.coe_add, Multiset.coe_singleton]
    abel
  · exact h.conn
  · apply forall_update h.left
    rintro job ⟨⟩

theorem Kept.send (h : s.Kept) (hs : s.sendData i = some s') : s'.Kept := by
  obtain ⟨job, response, hw, rfl⟩ := sendData_cases hs
  have hD := sum_update_add toDispatch s.worker i .picking
  have hL := sum_update_add leftOn s.worker i .picking
  have hS := sum_update_add toSend s.worker i .picking
  rw [hw] at hD hL hS
  simp only [toDispatch_sending, toDispatch_picking, leftOn_sending, leftOn_picking,
    toSend_sending, toSend_picking, add_zero] at hD hL hS
  constructor
  · simp only [setWorker, hD, hL, h.assigned]
  · simp only [setWorker, h.dispatched, ← hS, List.map_append, ← Multiset.coe_add, List.map_cons,
      List.map_nil, Multiset.coe_singleton]
    abel
  · intro r hr
    rcases List.mem_append.mp hr with hr | hr
    · exact h.conn r hr
    · rw [List.mem_singleton.mp hr]
  · apply forall_update h.left
    rintro job ⟨⟩

/-- A step of the daemon changes neither the workers nor what they did. -/
theorem Kept.daemon {jobs : List (JobMsgData P)} (h : s.Kept) (ha : s.Assigns jobs)
    (hs : s.threadSVRDaemon = some s') : s'.Kept := by
  rcases threadSVRDaemon_cases ha hs with ⟨data, -, -, rfl⟩ | ⟨i, -, -, rfl⟩ | ⟨d, q, -, rfl, -⟩
  · have hk := h.assignJob ⟨data, some s.numJobs⟩
    exact ⟨hk.assigned, hk.dispatched, hk.conn, hk.left⟩
  · have hk := h.assignJob terminationJob
    exact ⟨hk.assigned, hk.dispatched, hk.conn, hk.left⟩
  · exact ⟨h.assigned, h.dispatched, h.conn, h.left⟩

/-- A step of a worker changes neither the daemon nor what it did. -/
theorem Assigns.frame {jobs : List (JobMsgData P)} (h : s.Assigns jobs)
    (hd : s'.daemon = s.daemon) (hq : s'.queue = s.queue) (hn : s'.numJobs = s.numJobs)
    (ha : s'.assigned = s.assigned) : s'.Assigns jobs := by
  constructor
  · rw [terminations, hd, hn, ha]
    exact h.origins
  · rw [ha]
    exact h.genuine
  · rw [hd, hq, hn]
    exact h.queue
  · rw [hd]
    exact h.bound

theorem serverStep_keeps {zeroed : R} {jobs : List (JobMsgData P)} {a : ServerAction R}
    (h : s.Assigns jobs ∧ s.Kept) (hs : serverStep zeroed s a = some s') :
    s'.Assigns jobs ∧ s'.Kept := by
  cases a with
  | daemon => exact ⟨h.1.daemon hs, h.2.daemon h.1 hs⟩
  | pick i =>
    refine ⟨?_, h.2.pick hs⟩
    obtain ⟨job, jobs, phase, -, -, rfl, -⟩ := pickJob_cases hs
    exact h.1.frame rfl rfl rfl rfl
  | pickFails i =>
    rw [serverStep] at hs
    split_ifs at hs
    cases hs
    exact h
  | dispatch i respond =>
    refine ⟨?_, h.2.dispatch hs⟩
    obtain ⟨job, response, -, rfl⟩ := dispatchJob_cases hs
    exact h.1.frame rfl rfl rfl rfl
  | send i =>
    refine ⟨?_, h.2.send hs⟩
    obtain ⟨job, response, -, rfl⟩ := sendData_cases hs
    exact h.1.frame rfl rfl rfl rfl

end Steps

/-! ### Counting -/

section Counting

variable {jobs : List (JobMsgData P)} {s s' : ServerState P R}

theorem Assigns.countP_origin (h : s.Assigns jobs) (o : Option ℕ) :
    s.assigned.countP (fun job => job.origin = o) =
      ((List.range s.numJobs).map some).count o + (List.replicate s.terminations none).count o := by
  rw [← List.count_append, ← h.origins, List.count, List.countP_map]
  apply List.countP_congr
  intro job _
  simp

theorem Assigns.countP_some (h : s.Assigns jobs) (k : ℕ) :
    s.assigned.countP (fun job => job.origin = some k) = if k < s.numJobs then 1 else 0 := by
  rw [h.countP_origin, List.count_map_of_injective _ _ (Option.some_injective ℕ), List.count_range,
    List.count_replicate]
  rfl

theorem Assigns.countP_none (h : s.Assigns jobs) :
    s.assigned.countP (fun job => job.origin = none) = s.terminations := by
  rw [h.countP_origin, List.count_replicate_self, List.count_eq_zero_of_not_mem (by simp), zero_add]

theorem Kept.countP_assigned (h : s.Kept) (p : Job P → Prop) [DecidablePred p] :
    s.assigned.countP p = s.jobCenter.countP p + (∑ i, (s.worker i).toDispatch).countP p +
      (∑ i, (s.worker i).leftOn).countP p + s.dispatched.countP p := by
  simp only [← Multiset.coe_countP, h.assigned, Multiset.countP_add]

theorem Kept.countP_dispatched (h : s.Kept) (p : Job P → Prop) [DecidablePred p] :
    s.dispatched.countP p = (∑ i, (s.worker i).toSend).countP p +
      (s.sent.map Sent.job).countP p := by
  simp only [← Multiset.coe_countP, h.dispatched, Multiset.countP_add]

theorem countP_sum_pos {g : WorkerPhase P R → Multiset (Job P)} {p : Job P → Prop}
    [DecidablePred p] :
    0 < (∑ i, g (s.worker i)).countP p ↔ ∃ i, ∃ job ∈ g (s.worker i), p job := by
  rw [Multiset.countP_pos]
  constructor
  · rintro ⟨job, hmem, hp⟩
    obtain ⟨i, -, hi⟩ := Multiset.mem_sum.mp hmem
    exact ⟨i, job, hi, hp⟩
  · rintro ⟨i, job, hi, hp⟩
    exact ⟨job, Multiset.mem_sum.mpr ⟨i, Finset.mem_univ i, hi⟩, hp⟩

theorem waiting_iff (k : ℕ) : s.Waiting k ↔ s.numJobs ≤ k ∨
    0 < s.jobCenter.countP (fun job => job.origin = some k) ∨
    0 < (∑ i, (s.worker i).toDispatch).countP (fun job => job.origin = some k) := by
  rw [Waiting, countP_sum_pos, List.countP_pos_iff]
  simp only [WorkerPhase.mem_toDispatch, decide_eq_true_eq]

theorem sending_iff (k : ℕ) : s.Sending k ↔
    0 < (∑ i, (s.worker i).toSend).countP (fun job => job.origin = some k) := by
  rw [Sending, countP_sum_pos]
  simp only [WorkerPhase.mem_toSend]
  constructor
  · rintro ⟨i, job, r, hw, ho⟩
    exact ⟨i, job, ⟨r, hw⟩, ho⟩
  · rintro ⟨i, job, ⟨r, hw⟩, ho⟩
    exact ⟨i, job, r, hw, ho⟩

theorem Kept.mem_dispatched (h : s.Kept) {r : Sent P R} (hr : r ∈ s.sent) :
    r.job ∈ s.dispatched := by
  rw [← Multiset.mem_coe, h.dispatched]
  exact Multiset.mem_add.mpr (.inr (Multiset.mem_coe.mpr (List.mem_map_of_mem hr)))

theorem Kept.mem_assigned (h : s.Kept) {job : Job P} (hjob : job ∈ s.dispatched) :
    job ∈ s.assigned := by
  rw [← Multiset.mem_coe, h.assigned]
  exact Multiset.mem_add.mpr (.inr (Multiset.mem_coe.mpr hjob))

theorem Kept.mem_assigned_of_left (h : s.Kept) {i : Worker} {job : Job P}
    (hw : s.worker i = .left job) : job ∈ s.assigned := by
  rw [← Multiset.mem_coe, h.assigned, Multiset.mem_add, Multiset.mem_add]
  exact .inl (.inr (Multiset.mem_sum.mpr ⟨i, Finset.mem_univ i, WorkerPhase.mem_leftOn.mpr hw⟩))

theorem sum_toDispatch_of_finished (h : s.Finished) : ∑ i, (s.worker i).toDispatch = 0 :=
  Finset.sum_eq_zero fun i _ => not_not.mp fun hne => h.2.2 i (.inl hne)

theorem sum_toSend_of_finished (h : s.Finished) : ∑ i, (s.worker i).toSend = 0 :=
  Finset.sum_eq_zero fun i _ => not_not.mp fun hne => h.2.2 i (.inr hne)

/-- The daemon's termination jobs are all dispatched and answered in the end. -/
theorem not_answers_of_finished (ha : s.Assigns jobs) (hk : s.Kept) (hf : s.Finished) :
    ¬ s.Answers jobs := by
  intro h
  have hleft : (∑ i, (s.worker i).leftOn).countP (fun job => job.origin = none) = 0 := by
    apply Nat.eq_zero_of_not_pos
    rw [countP_sum_pos]
    rintro ⟨i, job, hmem, hnone⟩
    have hw := WorkerPhase.mem_leftOn.mp hmem
    have hterm := hk.left i job hw
    rw [(ha.genuine job (hk.mem_assigned_of_left hw)).1 hnone] at hterm
    cases hterm
  have hassigned := hk.countP_assigned fun job => job.origin = none
  have hdispatched := hk.countP_dispatched fun job => job.origin = none
  rw [ha.countP_none, terminations, hf.1, hf.2.1, sum_toDispatch_of_finished hf, hleft] at hassigned
  rw [sum_toSend_of_finished hf] at hdispatched
  have hpos : 0 < (s.sent.map Sent.job).countP fun job => job.origin = none := by
    simp only [List.countP_nil, Multiset.countP_zero, maxNumWorkers] at hassigned hdispatched
    omega
  obtain ⟨job, hmem, hnone⟩ := List.countP_pos_iff.mp hpos
  obtain ⟨r, hr, rfl⟩ := List.mem_map.mp hmem
  exact h.terminations r hr (of_decide_eq_true hnone)

/-- Before its dispatch a job was none of the termination, and only those made a worker leave. -/
structure Parted (s : ServerState P R) : Prop where
  worker : ∀ i, (s.worker i).Parted
  dispatched : ∀ job ∈ s.dispatched, job.origin ≠ none

theorem parted_start (jobs : List (JobMsgData P)) : (start jobs : ServerState P R).Parted where
  worker _ job := ⟨fun h => (by cases h), fun h => (by cases h)⟩
  dispatched _ h := by cases h

theorem Parted.step (h : s.Parted) {zeroed : R} {a : ServerAction R} (ha : s.Assigns jobs)
    (hm : s.Meets a) (hs : serverStep zeroed s a = some s') : s'.Parted := by
  cases a with
  | daemon =>
    rcases threadSVRDaemon_cases ha hs with ⟨data, -, -, rfl⟩ | ⟨i, -, -, rfl⟩ | ⟨d, q, -, rfl, -⟩
    · exact ⟨h.worker, h.dispatched⟩
    · exact ⟨h.worker, h.dispatched⟩
    · exact ⟨h.worker, h.dispatched⟩
  | pick i =>
    obtain ⟨job, jobs, phase, -, hq, rfl, hphase⟩ := pickJob_cases hs
    have hterm : job.origin = none ↔ job.data.retrievalType = RetrievalType.workerTerm.code :=
      hm job (by rw [hq]; rfl)
    refine ⟨forall_update h.worker ?_, h.dispatched⟩
    intro job'
    rcases hphase with ⟨rfl, hne⟩ | ⟨rfl, heq⟩
    · refine ⟨?_, fun h => by cases h⟩
      rintro ⟨⟩
      exact fun hnone => hne (hterm.mp hnone)
    · refine ⟨fun h => (by cases h), ?_⟩
      rintro ⟨⟩
      exact hterm.mpr heq
  | pickFails i =>
    rw [serverStep] at hs
    split_ifs at hs
    cases hs
    exact h
  | dispatch i respond =>
    obtain ⟨job, response, hw, rfl⟩ := dispatchJob_cases hs
    refine ⟨forall_update h.worker fun job => ⟨fun h => (by cases h), fun h => (by cases h)⟩, ?_⟩
    intro job' hmem
    rcases List.mem_append.mp hmem with hmem | hmem
    · exact h.dispatched job' hmem
    · rw [List.mem_singleton.mp hmem]
      exact (h.worker i job).1 hw
  | send i =>
    obtain ⟨job, response, hw, rfl⟩ := sendData_cases hs
    exact ⟨forall_update h.worker fun job => ⟨fun h => (by cases h), fun h => (by cases h)⟩,
      h.dispatched⟩

theorem Parted.countP_leftOn (h : s.Parted) (k : ℕ) :
    (∑ i, (s.worker i).leftOn).countP (fun job => job.origin = some k) = 0 := by
  apply Nat.eq_zero_of_not_pos
  rw [countP_sum_pos]
  rintro ⟨i, job, hmem, ho⟩
  rw [(h.worker i job).2 (WorkerPhase.mem_leftOn.mp hmem)] at ho
  cases ho

/-- With as many termination jobs as workers, all workers have left in the end. -/
theorem Parted.left (h : s.Parted) (ha : s.Assigns jobs) (hk : s.Kept) (hf : s.Finished)
    (i : Worker) : ∃ job, s.worker i = .left job := by
  have hnone : s.dispatched.countP (fun job => job.origin = none) = 0 := by
    rw [List.countP_eq_zero]
    intro job hjob
    simp [h.dispatched job hjob]
  have hassigned := hk.countP_assigned fun job => job.origin = none
  rw [ha.countP_none, terminations, hf.1, hf.2.1, sum_toDispatch_of_finished hf, hnone,
    List.countP_nil, Multiset.countP_zero, zero_add, zero_add, add_zero] at hassigned
  by_contra hleft
  have hzero : (s.worker i).leftOn = 0 := by
    rw [Multiset.eq_zero_iff_forall_notMem]
    intro job hmem
    exact hleft ⟨job, WorkerPhase.mem_leftOn.mp hmem⟩
  have hlt : ∑ j, (s.worker j).leftOn.card < ∑ _j : Worker, 1 := by
    apply Finset.sum_lt_sum fun j _ => WorkerPhase.card_leftOn_le (s.worker j)
    exact ⟨i, Finset.mem_univ i, by rw [hzero, Multiset.card_zero]; exact Nat.one_pos⟩
  have hle := Multiset.countP_le_card (fun job => job.origin = none) (∑ j, (s.worker j).leftOn)
  rw [Multiset.card_sum] at hle
  simp only [Finset.sum_const, Finset.card_univ, Fintype.card_fin, smul_eq_mul, mul_one] at hlt
  dsimp only at hassigned
  omega

theorem Assigns.eq_connHandle (ha : s.Assigns jobs) (hk : s.Kept) {k : ℕ} {data : JobMsgData P}
    (hget : jobs[k]? = some data) {c : UInt32} (hc : c ∈ s.responses k) : c = data.connHandle := by
  obtain ⟨r, hr, rfl⟩ := List.mem_map.mp hc
  obtain ⟨hr, ho⟩ := List.mem_filter.mp hr
  have hjob :=
    (ha.genuine r.job (hk.mem_assigned (hk.mem_dispatched hr))).2 k (of_decide_eq_true ho)
  rw [hk.conn r hr, Option.some.inj (hjob.symm.trans hget)]

theorem Parted.answers (h : s.Parted) (ha : s.Assigns jobs) (hk : s.Kept) : s.Answers jobs := by
  constructor
  · intro k data hget
    have hassigned := hk.countP_assigned fun job => job.origin = some k
    rw [ha.countP_some, h.countP_leftOn] at hassigned
    rw [waiting_iff, dispatches]
    split_ifs at hassigned <;> omega
  · intro k data hget
    have hassigned := hk.countP_assigned fun job => job.origin = some k
    have hdispatched := hk.countP_dispatched fun job => job.origin = some k
    rw [ha.countP_some, h.countP_leftOn] at hassigned
    have hlen : (s.responses k).length =
        (s.sent.map Sent.job).countP fun job => job.origin = some k := by
      rw [responses, List.length_map, ← List.countP_eq_length_filter, List.countP_map]
      rfl
    have hcases : (s.Waiting k ∨ s.Sending k) ∧ (s.responses k).length = 0 ∨
        ¬ (s.Waiting k ∨ s.Sending k) ∧ (s.responses k).length = 1 := by
      rw [hlen, waiting_iff, sending_iff]
      split_ifs at hassigned <;> omega
    rcases hcases with ⟨hway, hlen⟩ | ⟨hway, hlen⟩
    · exact .inl ⟨hway, List.eq_nil_of_length_eq_zero hlen⟩
    · obtain ⟨c, hc⟩ := List.length_eq_one_iff.mp hlen
      have hmem : c ∈ s.responses k := by simp [hc]
      rw [ha.eq_connHandle hk hget hmem] at hc
      exact .inr ⟨hway, hc⟩
  · intro r hr
    exact h.dispatched r.job (hk.mem_dispatched hr)
  · exact h.left ha hk

end Counting

end ServerState

/-- In every run of the daemon and the workers in which a job picked up has the type
`RETRIEVAL_TYPE_WORKER_TERM` exactly if it is a termination, every posted job is answered as it
should be; and in every run that comes to its end the terminations are answered like jobs. -/
theorem svr_run_answers (zeroed : R) (jobs : List (JobMsgData P)) (actions : List (ServerAction R))
    {s : ServerState P R} (hrun : runFrom (serverStep zeroed) (.start jobs) actions = some s) :
    (Along (serverStep zeroed) ServerState.Meets (.start jobs) actions → s.Answers jobs) ∧
      (s.Finished → ¬ s.Answers jobs) := by
  have hstart := ServerState.assigns_start (R := R) jobs
  have hkept := ServerState.kept_start (R := R) jobs
  constructor
  · intro hmeets
    have hstep : ∀ (s : ServerState P R) a s', (s.Assigns jobs ∧ s.Kept) ∧ s.Parted → s.Meets a →
        serverStep zeroed s a = some s' → (s'.Assigns jobs ∧ s'.Kept) ∧ s'.Parted :=
      fun s a s' h hm hs => ⟨ServerState.serverStep_keeps h.1 hs, h.2.step h.1.1 hm hs⟩
    obtain ⟨⟨ha, hk⟩, hp⟩ := runFrom_invariant hstep
      ⟨⟨hstart, hkept⟩, ServerState.parted_start jobs⟩ hmeets hrun
    exact hp.answers ha hk
  · intro hfinished
    obtain ⟨ha, hk⟩ := runFrom_invariant_of_step
      (fun _ _ _ => ServerState.serverStep_keeps) ⟨hstart, hkept⟩ hrun
    exact ServerState.not_answers_of_finished ha hk hfinished

def answering : List (ServerAction Unit) := [.daemon, .pick 0, .dispatch 0 (), .send 0]

theorem svr_run_answers_example :
    ∃ s, runFrom (serverStep ()) (.start [⟨RetrievalType.createUser.code, some (), 7⟩]) answering =
      some s ∧ s.Answers [⟨RetrievalType.createUser.code, some (), 7⟩] := by
  refine ⟨_, rfl, (svr_run_answers () [⟨RetrievalType.createUser.code, some (), 7⟩] answering
    rfl).1 ?_⟩
  refine ⟨trivial, ?_⟩
  rintro _ ⟨⟩
  refine ⟨?_, ?_⟩
  · rintro job ⟨⟩
    decide
  rintro _ ⟨⟩
  refine ⟨trivial, ?_⟩
  rintro _ ⟨⟩
  refine ⟨trivial, ?_⟩
  rintro _ ⟨⟩
  trivial

/-- The server is terminated without a job, and worker 0 takes up all that is assigned. -/
def terminating : List (ServerAction Unit) :=
  List.replicate 6 .daemon ++
    (List.replicate maxNumWorkers [.pick 0, .dispatch 0 (), .send 0]).flatten

/-- Every termination job is answered, and no worker has left. -/
theorem svr_run_not_answers :
    ∃ s, runFrom (serverStep ()) (.start ([] : List (JobMsgData Unit))) terminating = some s ∧
      s.Finished ∧ s.sent.length = maxNumWorkers ∧ (∀ i, s.worker i = .picking) ∧
      ¬ s.Answers [] := by
  refine ⟨_, rfl, ⟨rfl, rfl, by decide⟩, rfl, by decide, ?_⟩
  intro h
  exact h.terminations ⟨terminationJob, 0, ⟨0, ()⟩⟩ List.mem_cons_self rfl

end MorningProjects.ELibrary
