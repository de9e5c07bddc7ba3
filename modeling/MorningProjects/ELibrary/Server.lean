import MorningProjects.ELibrary.Retrieval

/-!
# The daemon and the workers of the server

`thread_SVR_daemon` turns the messages of its queue into jobs, and the threads
running `thread_SVR_worker` pick them up, dispatch them and send a response.
The job centre hands every job to one worker, first in, first out. The step of
a thread is one call to the job centre, a handler or the connection.
-/
namespace MorningProjects.ELibrary

abbrev maxNumWorkers : ℕ := 4

structure JobMsgData (P : Type*) where
  retrievalType : UInt32
  payLoad : Option P
  connHandle : UInt32
  deriving DecidableEq

inductive Message (P : Type*) where
  | job (msgData : JobMsgData P)
  | termination
  deriving DecidableEq

/-- What the daemon assigns to the job centre, with the number of the message it comes from;
the jobs of a termination come from none. -/
structure Job (P : Type*) where
  data : JobMsgData P
  origin : Option ℕ
  deriving DecidableEq

/-- The job that the daemon assigns `MAX_NUM_WORKERS` times on `SERVER_EVENT_TERMINATION`. -/
def terminationJob {P : Type*} : Job P := ⟨⟨0, none, 0⟩, none⟩

inductive DaemonPhase where
  | pending
  | terminating (i : ℕ)
  | stopped
  deriving DecidableEq

/-- `SERVER_RESPONSE`: what it is to and what a handler writes. -/
structure ServerResponse (R : Type*) where
  retrievalType : UInt32
  respond : R
  deriving DecidableEq

inductive WorkerPhase (P R : Type*) where
  | picking
  | dispatching (job : Job P)
  | sending (job : Job P) (response : ServerResponse R)
  | left (job : Job P)
  deriving DecidableEq

inductive Handler where
  | addUser
  | browseBooks
  | browseUsers
  | addFriend
  | rmFriend
  | addBookDescription
  deriving DecidableEq, Repr

/-- The switch of `thread_SVR_worker`. -/
def handlerOf (retrievalType : UInt32) : Option Handler :=
  if retrievalType = RetrievalType.createUser.code then some .addUser
  else if retrievalType = RetrievalType.browseBooks.code then some .browseBooks
  else if retrievalType = RetrievalType.browseUsers.code then some .browseUsers
  else if retrievalType = RetrievalType.addFriend.code then some .addFriend
  else if retrievalType = RetrievalType.rmFriend.code then some .rmFriend
  else if retrievalType = RetrievalType.addBookDesp.code then some .addBookDescription
  else none

structure Sent (P R : Type*) where
  job : Job P
  connHandle : UInt32
  response : ServerResponse R
  deriving DecidableEq

abbrev Worker := Fin maxNumWorkers

/-- The daemon with the messages still to come, the job centre and the workers, and what was
assigned, dispatched and sent so far. -/
structure ServerState (P R : Type*) where
  daemon : DaemonPhase
  queue : List (Message P)
  numJobs : ℕ
  jobCenter : List (Job P)
  worker : Worker → WorkerPhase P R
  assigned : List (Job P)
  dispatched : List (Job P)
  sent : List (Sent P R)

inductive ServerAction (R : Type*) where
  | daemon
  | pick (worker : Worker)
  | pickFails (worker : Worker)
  | dispatch (worker : Worker) (respond : R)
  | send (worker : Worker)

namespace ServerState

variable {P R : Type*}

/-- The server when these jobs and then the termination are posted. -/
def start (jobs : List (JobMsgData P)) : ServerState P R where
  daemon := .pending
  queue := jobs.map .job ++ [.termination]
  numJobs := 0
  jobCenter := []
  worker _ := .picking
  assigned := []
  dispatched := []
  sent := []

def assignJob (s : ServerState P R) (job : Job P) : ServerState P R :=
  { s with jobCenter := s.jobCenter ++ [job], assigned := s.assigned ++ [job] }

def setWorker (s : ServerState P R) (i : Worker) (phase : WorkerPhase P R) : ServerState P R :=
  { s with worker := Function.update s.worker i phase }

/-- The next step of `thread_SVR_daemon`; none while its queue is empty and once it stopped. -/
def threadSVRDaemon (s : ServerState P R) : Option (ServerState P R) :=
  match s.daemon, s.queue with
  | .pending, .termination :: queue => some { s with daemon := .terminating 0, queue := queue }
  | .pending, .job msgData :: queue =>
    some { s.assignJob ⟨msgData, some s.numJobs⟩ with queue := queue, numJobs := s.numJobs + 1 }
  | .terminating i, _ =>
    if i < maxNumWorkers then
      some { s.assignJob terminationJob with daemon := .terminating (i + 1) }
    else some { s with daemon := .stopped }
  | _, _ => none

/-- `COMMON_PNC_pickJob` and the test of the retrieval type. -/
def pickJob (s : ServerState P R) (i : Worker) : Option (ServerState P R) :=
  match s.worker i, s.jobCenter with
  | .picking, job :: jobs =>
    let s := { s with jobCenter := jobs }
    if job.data.retrievalType ≠ RetrievalType.workerTerm.code then
      some (s.setWorker i (.dispatching job))
    else some (s.setWorker i (.left job))
  | _, _ => none

/-- The response is zeroed, and a handler, if there is one, writes `respond` into it. -/
def dispatchJob (zeroed : R) (s : ServerState P R) (i : Worker) (respond : R) :
    Option (ServerState P R) :=
  match s.worker i with
  | .dispatching job =>
    let respond := if (handlerOf job.data.retrievalType).isSome then respond else zeroed
    some { s.setWorker i (.sending job ⟨job.data.retrievalType, respond⟩) with
      dispatched := s.dispatched ++ [job] }
  | _ => none

def sendData (s : ServerState P R) (i : Worker) : Option (ServerState P R) :=
  match s.worker i with
  | .sending job response =>
    some { s.setWorker i .picking with
      sent := s.sent ++ [⟨job, job.data.connHandle, response⟩] }
  | _ => none

end ServerState

def serverStep {P R : Type*} (zeroed : R) (s : ServerState P R) :
    ServerAction R → Option (ServerState P R)
  | .daemon => s.threadSVRDaemon
  | .pick i => s.pickJob i
  | .pickFails i => if (s.worker i matches .picking) then some s else none
  | .dispatch i respond => s.dispatchJob zeroed i respond
  | .send i => s.sendData i

end MorningProjects.ELibrary
