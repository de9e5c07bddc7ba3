import MorningProjects.ELibrary.Workers

/-!
# The server works off what is posted

Every job costs the daemon one step and a worker three, or one if it makes the
worker leave. No thread can take any other step but a pick that fails, so what
is left to do goes down by one with every step, and some thread can take the
next one until nothing is left.
-/
namespace MorningProjects.ELibrary
open Library

variable {P R : Type*}

/-! ### What is left to do -/

/-- A worker that picks up such a job leaves its loop. -/
def JobMsgData.EndsWorker (data : JobMsgData P) : Prop :=
  data.retrievalType = RetrievalType.workerTerm.code

instance (data : JobMsgData P) : Decidable data.EndsWorker :=
  inferInstanceAs (Decidable (_ = _))

def endings (jobs : List (JobMsgData P)) : List (JobMsgData P) :=
  jobs.filter fun data => data.EndsWorker

/-- It is picked up, dispatched and answered, or only picked up. -/
def JobMsgData.workerSteps (data : JobMsgData P) : ℕ := if data.EndsWorker then 1 else 3

def Message.steps : Message P → ℕ
  | .job msgData => msgData.workerSteps + 1
  | .termination => 4 * maxNumWorkers + 2

def WorkerPhase.stepsLeft : WorkerPhase P R → ℕ
  | .picking | .left _ => 0
  | .dispatching _ => 2
  | .sending _ _ => 1

@[simp] theorem stepsLeft_picking : (.picking : WorkerPhase P R).stepsLeft = 0 := rfl

@[simp] theorem stepsLeft_dispatching (job : Job P) :
    (.dispatching job : WorkerPhase P R).stepsLeft = 2 := rfl

@[simp] theorem stepsLeft_sending (job : Job P) (response : ServerResponse R) :
    (.sending job response : WorkerPhase P R).stepsLeft = 1 := rfl

@[simp] theorem stepsLeft_left (job : Job P) : (.left job : WorkerPhase P R).stepsLeft = 0 := rfl

/-- A pick that fails is a step on no message. -/
def ServerAction.cost : ServerAction R → ℕ
  | .pickFails _ => 0
  | .daemon | .pick _ | .dispatch _ _ | .send _ => 1

namespace ServerState

/-- The steps on the messages that the daemon has not handled in full. -/
def stepsToAssign (s : ServerState P R) : ℕ :=
  match s.daemon with
  | .pending => (s.queue.map Message.steps).sum
  | .terminating i => 4 * (maxNumWorkers - i) + 1
  | .stopped => 0

def stepsLeft (s : ServerState P R) : ℕ :=
  s.stepsToAssign + (s.jobCenter.map fun job => job.data.workerSteps).sum +
    ∑ i, (s.worker i).stepsLeft

end ServerState

def serverSteps (jobs : List (JobMsgData P)) : ℕ :=
  (jobs.map fun data => data.workerSteps + 1).sum + (4 * maxNumWorkers + 2)

namespace ServerState

theorem stepsLeft_start (jobs : List (JobMsgData P)) :
    (start jobs : ServerState P R).stepsLeft = serverSteps jobs := by
  simp [stepsLeft, stepsToAssign, start, serverSteps, Message.steps, WorkerPhase.stepsLeft,
    Function.comp_def]

end ServerState

/-! ### What the threads keep -/

/-- The answer to a job goes under its type, and is zeroed where the job has no handler. -/
structure Replies (zeroed : R) (job : Job P) (response : ServerResponse R) : Prop where
  stays : ¬ job.data.EndsWorker
  type : response.retrievalType = job.data.retrievalType
  unhandled : handlerOf job.data.retrievalType = none → response.respond = zeroed

/-- No job that makes its worker leave is dispatched. -/
structure WorkerPhase.Attends (zeroed : R) (phase : WorkerPhase P R) : Prop where
  dispatching : ∀ job, phase = .dispatching job → ¬ job.data.EndsWorker
  sending : ∀ job response, phase = .sending job response → Replies zeroed job response

namespace ServerState

/-- All posted jobs are assigned before the daemon terminates, and every answer is to its job. -/
structure Tended (zeroed : R) (jobs : List (JobMsgData P)) (s : ServerState P R) : Prop where
  assigns : s.Assigns jobs
  kept : s.Kept
  posted : s.assigned.map Job.data =
    jobs.take s.numJobs ++ List.replicate s.terminations terminationJob.data
  all : s.daemon ≠ .pending → s.numJobs = jobs.length
  worker : ∀ i, (s.worker i).Attends zeroed
  sent : ∀ r ∈ s.sent, Replies zeroed r.job r.response

theorem tended_start (zeroed : R) (jobs : List (JobMsgData P)) :
    (start jobs : ServerState P R).Tended zeroed jobs where
  assigns := assigns_start jobs
  kept := kept_start jobs
  posted := rfl
  all h := absurd rfl h
  worker i := by
    constructor
    · rintro job ⟨⟩
    · rintro job response ⟨⟩
  sent r h := by cases h

section Steps

variable {zeroed : R} {jobs : List (JobMsgData P)} {s s' : ServerState P R} {i : Worker}

/-- The daemon handles the next job, the termination, or one of its jobs, or it stops. -/
theorem threadSVRDaemon_does (ha : s.Assigns jobs) (h : s.threadSVRDaemon = some s') :
    (∃ data rest, s.daemon = .pending ∧ jobs.drop s.numJobs = data :: rest ∧
        s.queue = .job data :: (rest.map .job ++ [.termination]) ∧
        s' = { s.assignJob ⟨data, some s.numJobs⟩ with
          queue := rest.map .job ++ [.termination]
          numJobs := s.numJobs + 1 }) ∨
      (s.daemon = .pending ∧ jobs.drop s.numJobs = [] ∧ s.queue = [.termination] ∧
        s' = { s with daemon := .terminating 0, queue := [] }) ∨
      (∃ i < maxNumWorkers, s.daemon = .terminating i ∧
        s' = { s.assignJob terminationJob with daemon := .terminating (i + 1) }) ∨
      s.daemon = .terminating maxNumWorkers ∧ s' = { s with daemon := .stopped } := by
  rw [threadSVRDaemon] at h
  cases hd : s.daemon with
  | pending =>
    have hq := ha.queue hd
    cases hrest : jobs.drop s.numJobs with
    | nil =>
      rw [hrest] at hq
      rw [hd, hq] at h
      cases h
      exact .inr (.inl ⟨rfl, rfl, hq, rfl⟩)
    | cons data rest =>
      rw [hrest] at hq
      rw [hd, hq] at h
      cases h
      refine .inl ⟨data, rest, rfl, rfl, hq, ?_⟩
      simp [assignJob, hd]
  | terminating i =>
    rw [hd] at h
    dsimp only at h
    split_ifs at h with hi
    · cases h
      exact .inr (.inr (.inl ⟨i, hi, rfl, rfl⟩))
    · cases h
      obtain rfl : i = maxNumWorkers := by
        have hle := ha.bound i hd
        omega
      exact .inr (.inr (.inr ⟨rfl, rfl⟩))
  | stopped =>
    rw [hd] at h
    cases h

theorem Tended.numJobs_le (h : s.Tended zeroed jobs) : s.numJobs ≤ jobs.length := by
  have hposted := congrArg List.length h.posted
  have horigins := congrArg List.length h.assigns.origins
  simp only [List.length_map, List.length_append, List.length_take, List.length_replicate,
    List.length_range] at hposted horigins
  omega

theorem Tended.daemon (h : s.Tended zeroed jobs) (hs : s.threadSVRDaemon = some s') :
    s'.Tended zeroed jobs ∧ s'.stepsLeft + 1 = s.stepsLeft := by
  have hassigns := h.assigns.daemon hs
  have hkept := h.kept.daemon h.assigns hs
  have hposted := h.posted
  rcases threadSVRDaemon_does h.assigns hs with ⟨data, rest, hd, hrest, hq, rfl⟩ |
    ⟨hd, hrest, hq, rfl⟩ | ⟨i, hi, hd, rfl⟩ | ⟨hd, rfl⟩
  · refine ⟨⟨hassigns, hkept, ?_, fun hne => absurd hd hne, h.worker, h.sent⟩, ?_⟩
    · have htake : jobs.take (s.numJobs + 1) = jobs.take s.numJobs ++ [data] := by
        rw [List.take_add_one, ← List.head?_drop, hrest]
        rfl
      simp only [terminations, hd, List.replicate_zero, List.append_nil] at hposted
      simp [assignJob, terminations, hd, hposted, htake]
    · simp only [stepsLeft, stepsToAssign, assignJob, hd, hq, List.map_append, List.map_cons,
        List.map_nil, List.sum_append, List.sum_cons, List.sum_nil, Message.steps]
      omega
  · refine ⟨⟨hassigns, hkept, ?_, ?_, h.worker, h.sent⟩, ?_⟩
    · simp only [terminations, hd] at hposted
      exact hposted
    · intro _
      have hle := List.drop_eq_nil_iff.mp hrest
      exact le_antisymm h.numJobs_le hle
    · simp only [stepsLeft, stepsToAssign, hd, hq, List.map_cons, List.map_nil, List.sum_cons,
        List.sum_nil, Message.steps]
      omega
  · refine ⟨⟨hassigns, hkept, ?_, ?_, h.worker, h.sent⟩, ?_⟩
    · simp only [terminations, hd] at hposted
      simp [assignJob, terminations, hposted, List.replicate_succ']
    · intro _
      exact h.all (by rw [hd]; simp)
    · have hthree : (terminationJob : Job P).data.workerSteps = 3 := rfl
      simp only [stepsLeft, stepsToAssign, assignJob, hd, List.map_append, List.map_cons,
        List.map_nil, List.sum_append, List.sum_cons, List.sum_nil, hthree]
      omega
  · refine ⟨⟨hassigns, hkept, ?_, ?_, h.worker, h.sent⟩, ?_⟩
    · simp only [terminations, hd] at hposted
      exact hposted
    · intro _
      exact h.all (by rw [hd]; simp)
    · simp only [stepsLeft, stepsToAssign, hd]
      omega

theorem Tended.pick (h : s.Tended zeroed jobs) (hs : s.pickJob i = some s') :
    s'.Tended zeroed jobs ∧ s'.stepsLeft + 1 = s.stepsLeft := by
  have hkept := h.kept.pick hs
  obtain ⟨job, rest, phase, hw, hq, rfl, hphase⟩ := pickJob_cases hs
  have hassigns : ({ s with jobCenter := rest }.setWorker i phase).Assigns jobs :=
    h.assigns.frame rfl rfl rfl rfl
  have hsum := sum_update_add WorkerPhase.stepsLeft s.worker i phase
  rw [hw, stepsLeft_picking] at hsum
  rcases hphase with ⟨rfl, hne⟩ | ⟨rfl, heq⟩
  · refine ⟨⟨hassigns, hkept, h.posted, h.all, forall_update h.worker ?_, h.sent⟩, ?_⟩
    · constructor
      · rintro job ⟨⟩
        exact hne
      · rintro job response ⟨⟩
    · have hthree : job.data.workerSteps = 3 := if_neg hne
      rw [stepsLeft_dispatching] at hsum
      simp only [stepsLeft, stepsToAssign, setWorker, hq, List.map_cons, List.sum_cons, hthree]
      omega
  · refine ⟨⟨hassigns, hkept, h.posted, h.all, forall_update h.worker ?_, h.sent⟩, ?_⟩
    · constructor
      · rintro job ⟨⟩
      · rintro job response ⟨⟩
    · have hone : job.data.workerSteps = 1 := if_pos heq
      rw [stepsLeft_left] at hsum
      simp only [stepsLeft, stepsToAssign, setWorker, hq, List.map_cons, List.sum_cons, hone]
      omega

theorem Tended.dispatch (h : s.Tended zeroed jobs) {respond : R}
    (hs : s.dispatchJob zeroed i respond = some s') :
    s'.Tended zeroed jobs ∧ s'.stepsLeft + 1 = s.stepsLeft := by
  have hkept := h.kept.dispatch hs
  rw [dispatchJob] at hs
  split at hs
  · rename_i job hw
    cases hs
    have hsum := sum_update_add WorkerPhase.stepsLeft s.worker i
      (.sending job ⟨job.data.retrievalType,
        if (handlerOf job.data.retrievalType).isSome then respond else zeroed⟩)
    rw [hw, stepsLeft_dispatching, stepsLeft_sending] at hsum
    have hattends := h.worker i
    refine ⟨⟨h.assigns.frame rfl rfl rfl rfl, hkept, h.posted, h.all,
      forall_update h.worker ?_, h.sent⟩, ?_⟩
    · constructor
      · rintro job ⟨⟩
      · rintro job response ⟨⟩
        refine ⟨hattends.dispatching _ hw, rfl, ?_⟩
        intro hnone
        simp [hnone]
    · simp only [stepsLeft, stepsToAssign, setWorker]
      omega
  · cases hs

theorem Tended.send (h : s.Tended zeroed jobs) (hs : s.sendData i = some s') :
    s'.Tended zeroed jobs ∧ s'.stepsLeft + 1 = s.stepsLeft := by
  have hkept := h.kept.send hs
  obtain ⟨job, response, hw, rfl⟩ := sendData_cases hs
  have hsum := sum_update_add WorkerPhase.stepsLeft s.worker i .picking
  rw [hw, stepsLeft_sending, stepsLeft_picking] at hsum
  have hreplies := (h.worker i).sending job response hw
  refine ⟨⟨h.assigns.frame rfl rfl rfl rfl, hkept, h.posted, h.all,
    forall_update h.worker ?_, ?_⟩, ?_⟩
  · constructor
    · rintro job ⟨⟩
    · rintro job response ⟨⟩
  · intro r hr
    rcases List.mem_append.mp hr with hr | hr
    · exact h.sent r hr
    · rw [List.mem_singleton.mp hr]
      exact hreplies
  · simp only [stepsLeft, stepsToAssign, setWorker]
    omega

theorem Tended.step (h : s.Tended zeroed jobs) {a : ServerAction R}
    (hs : serverStep zeroed s a = some s') :
    s'.Tended zeroed jobs ∧ s'.stepsLeft + a.cost = s.stepsLeft := by
  cases a with
  | daemon => exact h.daemon hs
  | pick i => exact h.pick hs
  | pickFails i =>
    rw [serverStep] at hs
    split_ifs at hs
    cases hs
    exact ⟨h, rfl⟩
  | dispatch i respond => exact h.dispatch hs
  | send i => exact h.send hs

end Steps

/-! ### Some thread can go on -/

section Draining

variable {zeroed : R} {jobs : List (JobMsgData P)} {s : ServerState P R}

def Proceeds (zeroed : R) (s : ServerState P R) : Prop :=
  ∃ a : ServerAction R, a.cost = 1 ∧ (serverStep zeroed s a).isSome

theorem workerSteps_pos (data : JobMsgData P) : 0 < data.workerSteps := by
  rw [JobMsgData.workerSteps]
  split_ifs <;> omega

theorem Tended.dispatched (h : s.Tended zeroed jobs) {job : Job P} (hjob : job ∈ s.dispatched) :
    ¬ job.data.EndsWorker := by
  rw [← Multiset.mem_coe, h.kept.dispatched, Multiset.mem_add, Multiset.mem_coe] at hjob
  rcases hjob with hjob | hjob
  · obtain ⟨i, -, hi⟩ := Multiset.mem_sum.mp hjob
    obtain ⟨response, hw⟩ := WorkerPhase.mem_toSend.mp hi
    exact ((h.worker i).sending job response hw).stays
  · obtain ⟨r, hr, rfl⟩ := List.mem_map.mp hjob
    exact (h.sent r hr).stays

theorem Tended.filter_assigned (h : s.Tended zeroed jobs) :
    (s.assigned : Multiset (Job P)).filter (fun job => job.data.EndsWorker) =
      (s.jobCenter : Multiset (Job P)).filter (fun job => job.data.EndsWorker) +
        ∑ i, (s.worker i).leftOn := by
  have hdispatching : (∑ i, (s.worker i).toDispatch).filter
      (fun job => job.data.EndsWorker) = 0 := by
    rw [Multiset.filter_eq_nil]
    intro job hjob
    obtain ⟨i, -, hi⟩ := Multiset.mem_sum.mp hjob
    exact (h.worker i).dispatching job (WorkerPhase.mem_toDispatch.mp hi)
  have hleft : (∑ i, (s.worker i).leftOn).filter (fun job => job.data.EndsWorker) =
      ∑ i, (s.worker i).leftOn := by
    rw [Multiset.filter_eq_self]
    intro job hjob
    obtain ⟨i, -, hi⟩ := Multiset.mem_sum.mp hjob
    exact h.kept.left i job (WorkerPhase.mem_leftOn.mp hi)
  have hdispatched : (s.dispatched : Multiset (Job P)).filter
      (fun job => job.data.EndsWorker) = 0 := by
    rw [Multiset.filter_eq_nil]
    intro job hjob
    exact h.dispatched (Multiset.mem_coe.mp hjob)
  rw [h.kept.assigned, Multiset.filter_add, Multiset.filter_add, Multiset.filter_add, hdispatching,
    hleft, hdispatched, add_zero, add_zero]

theorem Tended.map_filter_assigned (h : s.Tended zeroed jobs) :
    (s.assigned.filter fun job => job.data.EndsWorker).map Job.data =
      endings (jobs.take s.numJobs) := by
  have hnone : (List.replicate s.terminations (terminationJob : Job P).data).filter
      (fun data => data.EndsWorker) = [] := by
    rw [List.filter_eq_nil_iff]
    intro data hdata
    rw [List.eq_of_mem_replicate hdata]
    exact Bool.false_ne_true
  have hposted := congrArg (List.filter fun data => data.EndsWorker) h.posted
  rw [List.filter_append, hnone, List.append_nil, List.filter_map] at hposted
  exact hposted

/-- No more workers have left than there are jobs that make them leave. -/
theorem Tended.card_leftOn (h : s.Tended zeroed jobs) :
    (∑ i, (s.worker i).leftOn).card ≤ (endings jobs).length := by
  have hcard := congrArg Multiset.card h.filter_assigned
  have hlength := congrArg List.length h.map_filter_assigned
  have hsub := ((List.take_sublist s.numJobs jobs).filter fun data => data.EndsWorker).length_le
  rw [List.length_map] at hlength
  rw [Multiset.card_add, Multiset.filter_coe, Multiset.coe_card, hlength] at hcard
  rw [endings] at hcard ⊢
  omega

theorem exists_not_left (h : (∑ i, (s.worker i).leftOn).card < maxNumWorkers) :
    ∃ i, ∀ job, s.worker i ≠ .left job := by
  by_contra! hall
  have hone : ∀ i, (s.worker i).leftOn.card = 1 := by
    intro i
    obtain ⟨job, hjob⟩ := hall i
    rw [hjob, WorkerPhase.leftOn_left, Multiset.card_singleton]
  rw [Multiset.card_sum, Finset.sum_congr rfl fun i _ => hone i] at h
  simp at h

theorem proceeds_of_worker {i : Worker} (hi : 0 < (s.worker i).stepsLeft) : s.Proceeds zeroed := by
  cases hw : s.worker i with
  | dispatching job =>
    refine ⟨.dispatch i zeroed, rfl, ?_⟩
    rw [serverStep, dispatchJob, hw]
    rfl
  | sending job response =>
    refine ⟨.send i, rfl, ?_⟩
    rw [serverStep, sendData, hw]
    rfl
  | picking =>
    rw [hw] at hi
    cases hi
  | left job =>
    rw [hw] at hi
    cases hi

/-- What is in the job centre can be picked up, or a worker that could is busy. -/
theorem Tended.proceeds_of_jobCenter (h : s.Tended zeroed jobs)
    (hends : (endings jobs).length < maxNumWorkers) (hjobs : s.jobCenter ≠ []) :
    s.Proceeds zeroed := by
  obtain ⟨i, hi⟩ := exists_not_left (h.card_leftOn.trans_lt hends)
  cases hw : s.worker i with
  | picking =>
    obtain ⟨job, rest, hq⟩ := List.exists_cons_of_ne_nil hjobs
    refine ⟨.pick i, rfl, ?_⟩
    simp only [serverStep, pickJob, hw, hq]
    split_ifs
    · rfl
    · rfl
  | dispatching job => exact proceeds_of_worker (by rw [hw]; exact Nat.two_pos)
  | sending job response => exact proceeds_of_worker (by rw [hw]; exact Nat.one_pos)
  | left job => exact absurd hw (hi job)

/-- Until it stops, the daemon has a message to handle or a job to assign. -/
theorem Tended.proceeds_of_daemon (h : s.Tended zeroed jobs) (hd : s.daemon ≠ .stopped) :
    s.Proceeds zeroed := by
  refine ⟨.daemon, rfl, ?_⟩
  cases hdaemon : s.daemon with
  | pending =>
    have hq := h.assigns.queue hdaemon
    cases hrest : jobs.drop s.numJobs with
    | nil =>
      rw [hrest] at hq
      simp only [serverStep, threadSVRDaemon, hdaemon, hq]
      rfl
    | cons data rest =>
      rw [hrest] at hq
      simp only [serverStep, threadSVRDaemon, hdaemon, hq]
      rfl
  | terminating i =>
    simp only [serverStep, threadSVRDaemon, hdaemon]
    split_ifs
    · rfl
    · rfl
  | stopped => exact absurd hdaemon hd

/-- As long as something is left to do, some thread can do it. -/
theorem Tended.proceeds (h : s.Tended zeroed jobs)
    (hends : (endings jobs).length < maxNumWorkers) (hsteps : 0 < s.stepsLeft) :
    s.Proceeds zeroed := by
  by_cases hd : s.daemon = .stopped
  · by_cases hjobs : s.jobCenter = []
    · have hworkers : 0 < ∑ i, (s.worker i).stepsLeft := by
        rw [stepsLeft, stepsToAssign, hd, hjobs] at hsteps
        simpa using hsteps
      obtain ⟨i, -, hi⟩ := Finset.exists_ne_zero_of_sum_ne_zero hworkers.ne'
      exact proceeds_of_worker (Nat.pos_of_ne_zero hi)
    · exact h.proceeds_of_jobCenter hends hjobs
  · exact h.proceeds_of_daemon hd

/-! ### What is there in the end -/

/-- The daemon has stopped and the workers are idle; up to their order the answers sent are one to
each posted job but those that made a worker leave, and as many as there are workers to connection
0 under type 0; a type without a handler is answered with zeros; workers have left on exactly the
jobs that make them leave, and some worker still waits. -/
structure Drained (zeroed : R) (jobs : List (JobMsgData P)) (s : ServerState P R) : Prop where
  finished : s.Finished
  answered : (s.sent.map fun r => (r.connHandle, r.response.retrievalType)).Perm
    ((jobs.filter fun data => ¬ data.EndsWorker).map
        (fun data => (data.connHandle, data.retrievalType)) ++
      List.replicate maxNumWorkers (0, 0))
  unhandled : ∀ r ∈ s.sent, handlerOf r.response.retrievalType = none → r.response.respond = zeroed
  left : (∑ i, (s.worker i).leftOn).map Job.data = endings jobs
  waiting : ∃ i, s.worker i = .picking

theorem Tended.finished (h : s.Tended zeroed jobs) (hsteps : s.stepsLeft = 0) : s.Finished := by
  rw [stepsLeft, Nat.add_eq_zero_iff, Nat.add_eq_zero_iff] at hsteps
  obtain ⟨⟨hassign, hjobs⟩, hworkers⟩ := hsteps
  refine ⟨?_, ?_, ?_⟩
  · cases hd : s.daemon with
    | pending =>
      rw [stepsToAssign, hd, h.assigns.queue hd] at hassign
      simp [Message.steps] at hassign
    | terminating i =>
      rw [stepsToAssign, hd] at hassign
      cases hassign
    | stopped => rfl
  · rw [List.eq_nil_iff_forall_not_mem]
    intro job hjob
    have hzero := List.sum_eq_zero_iff.mp hjobs _ (List.mem_map_of_mem hjob)
    have hpos := workerSteps_pos job.data
    omega
  · intro i
    have hzero : (s.worker i).stepsLeft = 0 :=
      Finset.sum_eq_zero_iff.mp hworkers i (Finset.mem_univ i)
    cases hw : s.worker i with
    | picking => simp [WorkerPhase.Busy]
    | left job => simp [WorkerPhase.Busy]
    | dispatching job =>
      rw [hw] at hzero
      cases hzero
    | sending job response =>
      rw [hw] at hzero
      cases hzero

theorem Tended.numJobs_eq (h : s.Tended zeroed jobs) (hf : s.Finished) :
    s.numJobs = jobs.length := by
  apply h.all
  rw [hf.1]
  simp

/-- In the end every assigned job is dispatched, but those that workers left on. -/
theorem Tended.dispatched_perm (h : s.Tended zeroed jobs) (hf : s.Finished) :
    s.dispatched.Perm (s.assigned.filter fun job => ¬ job.data.EndsWorker) := by
  have hleft : (∑ i, (s.worker i).leftOn).filter (fun job => ¬ job.data.EndsWorker) = 0 := by
    rw [Multiset.filter_eq_nil]
    intro job hjob
    obtain ⟨i, -, hi⟩ := Multiset.mem_sum.mp hjob
    exact not_not_intro (h.kept.left i job (WorkerPhase.mem_leftOn.mp hi))
  have hdispatched : (s.dispatched : Multiset (Job P)).filter
      (fun job => ¬ job.data.EndsWorker) = s.dispatched := by
    rw [Multiset.filter_eq_self]
    intro job hjob
    exact h.dispatched (Multiset.mem_coe.mp hjob)
  rw [← Multiset.coe_eq_coe, ← Multiset.filter_coe, h.kept.assigned, hf.2.1,
    sum_toDispatch_of_finished hf, Multiset.coe_nil, zero_add, zero_add, Multiset.filter_add, hleft,
    hdispatched, zero_add]

theorem Tended.map_filter_not_assigned (h : s.Tended zeroed jobs) (hf : s.Finished) :
    (s.assigned.filter fun job => ¬ job.data.EndsWorker).map
        (fun job => (job.data.connHandle, job.data.retrievalType)) =
      (jobs.filter fun data => ¬ data.EndsWorker).map
          (fun data => (data.connHandle, data.retrievalType)) ++
        List.replicate maxNumWorkers (0, 0) := by
  have hcount : s.terminations = maxNumWorkers := by
    rw [terminations, hf.1]
  have hposted := h.posted
  rw [h.numJobs_eq hf, hcount, List.take_length] at hposted
  have hdata : (s.assigned.filter fun job => ¬ job.data.EndsWorker).map Job.data =
      (s.assigned.map Job.data).filter fun data => ¬ data.EndsWorker := by
    rw [List.filter_map]
    rfl
  have hmap := congrArg
    (List.map fun data : JobMsgData P => (data.connHandle, data.retrievalType)) hdata
  rw [hposted, List.filter_append, List.map_append, List.map_map] at hmap
  exact hmap

theorem Tended.drained (h : s.Tended zeroed jobs) (hends : (endings jobs).length < maxNumWorkers)
    (hsteps : s.stepsLeft = 0) : s.Drained zeroed jobs := by
  have hf := h.finished hsteps
  have hends_map := h.map_filter_assigned
  have hleft := h.filter_assigned
  have hdispatched := h.kept.dispatched
  rw [h.numJobs_eq hf, List.take_length] at hends_map
  rw [hf.2.1, Multiset.coe_nil, Multiset.filter_zero, zero_add, Multiset.filter_coe] at hleft
  rw [sum_toSend_of_finished hf, zero_add, Multiset.coe_eq_coe] at hdispatched
  refine ⟨hf, ?_, ?_, ?_, ?_⟩
  · have hjobs : s.sent.map (fun r => (r.connHandle, r.response.retrievalType)) =
        (s.sent.map Sent.job).map fun job => (job.data.connHandle, job.data.retrievalType) := by
      rw [List.map_map]
      apply List.map_congr_left
      intro r hr
      rw [h.kept.conn r hr, (h.sent r hr).type]
      rfl
    rw [hjobs, ← h.map_filter_not_assigned hf]
    exact (hdispatched.symm.trans (h.dispatched_perm hf)).map _
  · intro r hr hnone
    have hreplies := h.sent r hr
    rw [hreplies.type] at hnone
    exact hreplies.unhandled hnone
  · rw [← hleft, ← hends_map, Multiset.map_coe]
  · obtain ⟨i, hi⟩ := exists_not_left (h.card_leftOn.trans_lt hends)
    refine ⟨i, ?_⟩
    have hidle := hf.2.2 i
    cases hw : s.worker i with
    | picking => rfl
    | left job => exact absurd hw (hi job)
    | dispatching job => simp [hw, WorkerPhase.Busy] at hidle
    | sending job response => simp [hw, WorkerPhase.Busy] at hidle

end Draining

end ServerState

/-- In every run of the daemon and the workers, whatever the handlers do, when fewer jobs than
there are workers have the type that makes a worker leave: no more steps are taken than the posted
jobs need, before the last of them some thread can take the next one, and after it every other job
has been answered on its own connection. -/
theorem svr_run_drains (zeroed : R) (jobs : List (JobMsgData P))
    (hends : (endings jobs).length < maxNumWorkers) (actions : List (ServerAction R))
    {s : ServerState P R} (hrun : runFrom (serverStep zeroed) (.start jobs) actions = some s) :
    (actions.map ServerAction.cost).sum ≤ serverSteps jobs ∧
      ((actions.map ServerAction.cost).sum < serverSteps jobs → s.Proceeds zeroed) ∧
      ((actions.map ServerAction.cost).sum = serverSteps jobs → s.Drained zeroed jobs) := by
  have hstep : ∀ (s : ServerState P R) a s', s.Tended zeroed jobs →
      serverStep zeroed s a = some s' →
        s'.Tended zeroed jobs ∧ s'.stepsLeft + a.cost = s.stepsLeft :=
    fun s a s' hs hstep => hs.step hstep
  obtain ⟨htended, hspent⟩ := runFrom_spends hstep (ServerState.tended_start zeroed jobs) hrun
  rw [ServerState.stepsLeft_start] at hspent
  refine ⟨by omega, ?_, ?_⟩
  · intro hlt
    exact htended.proceeds hends (by omega)
  · intro heq
    exact htended.drained hends (by omega)

/-- A client creates a user and another sends a job on which the third worker leaves; the last
worker answers everything. -/
def leavingOne : List (ServerAction Unit) :=
  let last : Worker := Fin.last 3
  List.replicate 8 .daemon ++
    [.pick last, .pick (Fin.last 2).castSucc, .dispatch last (), .send last] ++
    (List.replicate maxNumWorkers [.pick last, .dispatch last (), .send last]).flatten

theorem svr_run_drains_example :
    ∃ s, runFrom (serverStep ()) (.start [⟨RetrievalType.createUser.code, some (), 7⟩,
        ⟨RetrievalType.workerTerm.code, none, 9⟩]) leavingOne = some s ∧
      s.Drained () [⟨RetrievalType.createUser.code, some (), 7⟩,
        ⟨RetrievalType.workerTerm.code, none, 9⟩] :=
  ⟨_, rfl, (svr_run_drains () _ (by decide) leavingOne rfl).2.2 (by decide)⟩

end MorningProjects.ELibrary
