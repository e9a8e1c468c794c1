import Matcore.Lib.Trace

/-!
# The persistent execution context

`CpuExecutionContextV1` of `cpu_execution_context.cpp` behind a successful `create`: workers
that wait for submissions, any number of outside threads that call `run_tasks_with_preflight`
and `shutdown`, and callbacks that call either from inside a worker. A critical section of
`state_mutex` is one step. A condition variable is the set of threads that sleep on it, and a
wait is a step that finds its predicate false and falls asleep. Callbacks return what they
please. No mutex operation throws.

A `SubmissionV1` is named by the number of submissions accepted before it, which no other
submission shares, even one at the same address of the stack.
-/

namespace Matcore.Parallel

open Function (update)

inductive Status where
  | success
  | invalidConfiguration
  | contextStopping
  | nestedParallelismRejected
  | callbackFailed
  | resourceExhausted
  | affinityUnavailable
  | affinityApplicationFailed
  deriving DecidableEq

/-- The nesting policies, and every value of the underlying type that names none. -/
inductive NestingPolicy where
  | nativeOnly
  | externalProviderActive
  | other
  deriving DecidableEq

/-- The largest `std::size_t`. -/
def sizeMax : ℕ := 2 ^ 64 - 1

/-- The arguments of `run_tasks_with_preflight`, and those of `run_tasks` with no preflight.
Within `noWrap` no `task_index + active_threads` wraps. -/
structure Request where
  taskCount : ℕ
  activeThreads : ℕ
  policy : NestingPolicy := .nativeOnly
  preflight : Bool := false
  task : Bool := true
  noWrap : taskCount + activeThreads ≤ sizeMax + 1
  deriving DecidableEq

/-- `WorkerResultV1`. -/
structure WorkerResult where
  status : Status := .success
  firstFailedTask : ℕ := sizeMax

/-- `SubmissionV1`. -/
structure Submission where
  taskCount : ℕ := 0
  activeThreads : ℕ := 0
  preflight : Bool := false
  completedPreflights : ℕ := 0
  preflightFailed : Bool := false
  completedWorkers : ℕ := 0

/-- The stores of a worker that records the status of its preflight. -/
def Submission.record (submission : Submission) (status : Status) : Submission :=
  { submission with
    preflightFailed := if status = .success then submission.preflightFailed else true
    completedPreflights := submission.completedPreflights + 1 }

inductive Callback where
  | preflight
  | task (index : ℕ)
  deriving DecidableEq

/-- Where a worker stands in `worker_loop`, with the submission that `current` points to. -/
inductive WorkerPc where
  /-- before the wait for `work_available` -/
  | waiting
  /-- behind the first critical section -/
  | joined (g : ℕ)
  /-- inside a callback, or between the store and the notification of a `shutdown` it called -/
  | calling (g : ℕ) (callback : Callback) (notifying : Bool)
  /-- before the critical section that records a preflight -/
  | preflighted (g : ℕ) (status : Status)
  /-- before the wait for `preflight_complete` -/
  | barrier (g : ℕ)
  /-- before the test of the task loop -/
  | looping (g : ℕ) (index : ℕ)
  /-- before the last critical section -/
  | finishing (g : ℕ)
  | exited
  deriving DecidableEq

/-- The submission that a worker holds a pointer to. -/
def WorkerPc.current : WorkerPc → Option ℕ
  | joined g | calling g _ _ | preflighted g _ | barrier g | looping g _ | finishing g => some g
  | waiting | exited => none

structure Worker where
  pc : WorkerPc := .waiting
  observedEpoch : ℕ := 0
  /-- history: the submissions accepted when the worker last saw a new epoch -/
  seen : ℕ := 0

/-- Where an outside thread stands in `run_tasks_with_preflight` or `shutdown`. -/
inductive ClientPc where
  | idle
  /-- before the lock of `submission_mutex` -/
  | locking (request : Request)
  /-- before the critical section that installs a submission -/
  | locked (request : Request)
  /-- before the notification of the workers -/
  | notifying (g : ℕ)
  /-- before the wait for `submission_complete` -/
  | waiting (g : ℕ)
  /-- behind the last critical section -/
  | returning (g : ℕ)
  | lockingShutdown
  | shuttingDown
  | notifyingShutdown
  | joining
  deriving DecidableEq

/-- Whether an outside thread holds `submission_mutex`. -/
def ClientPc.holds : ClientPc → Bool
  | idle | locking _ | lockingShutdown => false
  | locked _ | notifying _ | waiting _ | returning _ | shuttingDown | notifyingShutdown
  | joining => true

/-- `CpuExecutionContextV1::Impl` with the threads that use it. -/
structure Context where
  workerCount : ℕ
  submission : Option ℕ := none
  epoch : ℕ := 0
  stopping : Bool := false
  /-- whether `shutdown` has joined the workers and cleared their vector -/
  workersEmpty : Bool := false
  submissionMutex : Option ℕ := none
  results : ℕ → WorkerResult := fun _ => {}
  /-- the threads that sleep on each condition variable: workers, workers and outside threads -/
  workAvailable : ℕ → Bool := fun _ => false
  preflightComplete : ℕ → Bool := fun _ => false
  submissionComplete : ℕ → Bool := fun _ => false
  workers : ℕ → Worker := fun _ => {}
  clients : ℕ → ClientPc := fun _ => .idle
  /-- the submissions on the stacks of their submitters -/
  submissions : ℕ → Submission := fun _ => {}
  /-- history: the number of submissions accepted -/
  submitted : ℕ := 0

/-- What a run shows: calls and their returns, callbacks and theirs, and every access of a
worker to a submission. -/
inductive Event where
  | rejected (status : Status)
  | refused (c : ℕ)
  | accepted (g c : ℕ) (request : Request)
  | returned (g : ℕ) (status : Status)
  | stop
  | access (g w : ℕ)
  | preflight (g w : ℕ)
  | preflightDone (g w : ℕ) (status : Status)
  | task (g i w : ℕ)
  | taskDone (g i w : ℕ) (status : Status)
  deriving DecidableEq

/-- A thread takes its next step, or something outside the context decides for it. -/
inductive Action where
  | worker (w : ℕ)
  | client (c : ℕ)
  /-- an outside thread calls `run_tasks` or `shutdown` -/
  | call (c : ℕ) (request : Request)
  | callShutdown (c : ℕ)
  /-- the callback that a worker runs returns -/
  | finish (w : ℕ) (status : Status)
  /-- the callback that a worker runs calls `run_tasks` or `shutdown` -/
  | nestedCall (w : ℕ) (request : Request)
  | nestedShutdown (w : ℕ)
  /-- a thread wakes up without a notification -/
  | wakeWorker (w : ℕ)
  | wakeClient (c : ℕ)

/-- The checks of `run_tasks_with_preflight` before it locks. -/
def Request.check (request : Request) (workerCount : ℕ) (inWorker : Bool) : Option Status :=
  if request.taskCount = 0 ∨ request.activeThreads = 0 ∨ request.activeThreads > workerCount ∨
      request.activeThreads > request.taskCount ∨ ¬ request.task then some .invalidConfiguration
  else if inWorker then some .invalidConfiguration
  else if request.policy = .externalProviderActive ∧ request.activeThreads > 1 then
    some .nestedParallelismRejected
  else if request.policy ≠ .nativeOnly ∧ request.policy ≠ .externalProviderActive then
    some .invalidConfiguration
  else none

namespace Context

variable (s : Context)

def setWorker (w : ℕ) (worker : Worker) : Context :=
  { s with workers := update s.workers w worker }

/-- The context with a worker elsewhere. -/
def moveWorker (w : ℕ) (pc : WorkerPc) : Context := s.setWorker w { s.workers w with pc }

def moveClient (c : ℕ) (pc : ClientPc) : Context :=
  { s with clients := update s.clients c pc }

def setSubmission (g : ℕ) (submission : Submission) : Context :=
  { s with submissions := update s.submissions g submission }

def setResult (w : ℕ) (result : WorkerResult) : Context :=
  { s with results := update s.results w result }

/-- `work_available.notify_all()`. -/
def notifyWork : Context := { s with workAvailable := fun _ => false }

/-- The first critical section. -/
def awaitWork (w : ℕ) : Context × List Event :=
  let worker := s.workers w
  let unseen : Bool := s.epoch != worker.observedEpoch
  if ¬ (s.stopping ∨ unseen) then
    ({ s with workAvailable := update s.workAvailable w true }, [])
  else if s.stopping ∧ ¬ unseen then (s.moveWorker w .exited, [])
  else
    let worker := if unseen then
        { worker with observedEpoch := s.epoch, seen := s.submitted }
      else worker
    let leave (current : Option ℕ) : Context :=
      s.setWorker w { worker with
        pc := match current with
          | some g => .joined g
          | none => if s.stopping then .exited else .waiting }
    match s.submission with
    | some g =>
      if unseen then
        (leave (if w < (s.submissions g).activeThreads then some g else none), [.access g w])
      else (leave none, [])
    | none => (leave none, [])

/-- The branch on `execute_tasks`. -/
def execute (g w : ℕ) : Context :=
  s.moveWorker w (if (s.submissions g).preflightFailed then .finishing g else .looping g w)

/-- The critical section behind a preflight, up to the wait. -/
def recordPreflight (g w : ℕ) (status : Status) : Context :=
  let current := (s.submissions g).record status
  let results := if status = .success then s.results else update s.results w ⟨status, 0⟩
  let s := { s.setSubmission g current with results }
  if current.completedPreflights = current.activeThreads then
    { s with preflightComplete := fun _ => false }.execute g w
  else
    { s with preflightComplete := update s.preflightComplete w true }.moveWorker w
      (.barrier g)

/-- The last critical section. The thread that `notify_one` wakes is the one that can wait:
the holder of `submission_mutex`. -/
def finishWorker (g w : ℕ) : Context :=
  let current := s.submissions g
  let current := { current with completedWorkers := current.completedWorkers + 1 }
  let s := (s.setSubmission g current).moveWorker w .waiting
  if current.completedWorkers = current.activeThreads then
    match s.submissionMutex with
    | some c =>
      { s with submissionComplete := update s.submissionComplete c false }
    | none => s
  else s

/-- The next step of a worker outside its callbacks. -/
def workerStep (w : ℕ) : Option (Context × List Event) :=
  match (s.workers w).pc with
  | .waiting => if s.workAvailable w then none else some (s.awaitWork w)
  | .joined g =>
    if (s.submissions g).preflight then
      some (s.moveWorker w (.calling g .preflight false), [.access g w, .preflight g w])
    else some (s.moveWorker w (.looping g w), [.access g w])
  | .calling g callback true =>
    some (s.notifyWork.moveWorker w (.calling g callback false), [])
  | .calling _ _ false => none
  | .preflighted g status => some (s.recordPreflight g w status, [.access g w])
  | .barrier g =>
    if s.preflightComplete w then none
    else if (s.submissions g).completedPreflights = (s.submissions g).activeThreads then
      some (s.execute g w, [.access g w])
    else some ({ s with preflightComplete := update s.preflightComplete w true },
      [.access g w])
  | .looping g i =>
    if i < (s.submissions g).taskCount then
      some (s.moveWorker w (.calling g (.task i) false), [.access g w, .task g i w])
    else some (s.moveWorker w (.finishing g), [.access g w])
  | .finishing g => some (s.finishWorker g w, [.access g w])
  | .exited => none

/-- The return of a callback, up to the next test of the task loop. -/
def finishCallback (w : ℕ) (status : Status) : Option (Context × List Event) :=
  match (s.workers w).pc with
  | .calling g .preflight false =>
    some (s.moveWorker w (.preflighted g status), [.preflightDone g w status])
  | .calling g (.task i) false =>
    if status = .success then
      let next := (i + (s.submissions g).activeThreads) % (sizeMax + 1)
      some (s.moveWorker w (.looping g next), [.taskDone g i w status, .access g w])
    else some ((s.setResult w ⟨status, i⟩).moveWorker w (.finishing g), [.taskDone g i w status])
  | _ => none

/-- A call of `run_tasks` inside a callback. -/
def nestedCall (w : ℕ) (request : Request) : Option (Context × List Event) :=
  match (s.workers w).pc with
  | .calling _ _ false =>
    (request.check s.workerCount true).map fun status => (s, [.rejected status])
  | _ => none

/-- A call of `shutdown` inside a callback, up to its notification. -/
def nestedShutdown (w : ℕ) : Option (Context × List Event) :=
  match (s.workers w).pc with
  | .calling g callback false =>
    some ({ s with stopping := true }.moveWorker w (.calling g callback true), [.stop])
  | _ => none

/-- The results of the active workers: the status of the first failed task. -/
def outcome (activeThreads : ℕ) : WorkerResult :=
  (List.range activeThreads).foldl
    (fun result w =>
      if (s.results w).firstFailedTask < result.firstFailedTask then s.results w else result) {}

/-- The stores of the critical section that installs a submission. -/
def install (c : ℕ) (request : Request) : Context :=
  let submission : Submission :=
    { taskCount := request.taskCount
      activeThreads := request.activeThreads
      preflight := request.preflight }
  ({ s with
      results := fun w => if w < request.activeThreads then {} else s.results w
      submission := some s.submitted
      epoch := (s.epoch + 1) % 2 ^ 64
      submitted := s.submitted + 1 }.setSubmission s.submitted submission).moveClient c
    (.notifying s.submitted)

/-- The critical section that installs a submission. -/
def submit (c : ℕ) (request : Request) : Context × List Event :=
  if s.stopping then ({ s with submissionMutex := none }.moveClient c .idle, [.refused c])
  else (s.install c request, [.accepted s.submitted c request])

def workersExited : Bool := (List.range s.workerCount).all fun w => (s.workers w).pc == .exited

/-- The next step of an outside thread inside a call. -/
def clientStep (c : ℕ) : Option (Context × List Event) :=
  let lock (pc : ClientPc) : Option (Context × List Event) :=
    if s.submissionMutex.isSome then none
    else some ({ s with submissionMutex := some c }.moveClient c pc, [])
  match s.clients c with
  | .idle => none
  | .locking request => lock (.locked request)
  | .locked request => some (s.submit c request)
  | .notifying g => some (s.notifyWork.moveClient c (.waiting g), [])
  | .waiting g =>
    if s.submissionComplete c then none
    else if (s.submissions g).completedWorkers = (s.submissions g).activeThreads then
      some ({ s with submission := none }.moveClient c (.returning g), [])
    else some ({ s with submissionComplete := update s.submissionComplete c true }, [])
  | .returning g =>
    some ({ s with submissionMutex := none }.moveClient c .idle,
      [.returned g (s.outcome (s.submissions g).activeThreads).status])
  | .lockingShutdown => lock .shuttingDown
  | .shuttingDown =>
    if s.stopping ∧ s.workersEmpty then
      some ({ s with submissionMutex := none }.moveClient c .idle, [])
    else some ({ s with stopping := true }.moveClient c .notifyingShutdown, [.stop])
  | .notifyingShutdown => some (s.notifyWork.moveClient c .joining, [])
  | .joining =>
    if s.workersExited then
      some ({ s with workersEmpty := true, submissionMutex := none }.moveClient c .idle, [])
    else none

/-- A call of `run_tasks` by an outside thread, up to its first lock. -/
def call (c : ℕ) (request : Request) : Option (Context × List Event) :=
  if s.clients c = .idle then
    match request.check s.workerCount false with
    | some status => some (s, [.rejected status])
    | none => some (s.moveClient c (.locking request), [])
  else none

def next : Action → Option (Context × List Event)
  | .worker w => if w < s.workerCount then s.workerStep w else none
  | .client c => s.clientStep c
  | .call c request => s.call c request
  | .callShutdown c =>
    if s.clients c = .idle then some (s.moveClient c .lockingShutdown, []) else none
  | .finish w status => s.finishCallback w status
  | .nestedCall w request => s.nestedCall w request
  | .nestedShutdown w => s.nestedShutdown w
  | .wakeWorker w =>
    some ({ s with
      workAvailable := update s.workAvailable w false
      preflightComplete := update s.preflightComplete w false }, [])
  | .wakeClient c =>
    some ({ s with submissionComplete := update s.submissionComplete c false }, [])

/-- The context that `create` returns: its workers have started and none has work. -/
def create (workerCount : ℕ) : Context := { workerCount }

end Context

/-- The context behind a list of actions, and the events on the way. -/
abbrev run (s : Context) (actions : List Action) : Option (Context × List Event) :=
  Trace.run Context.next s actions

end Matcore.Parallel
