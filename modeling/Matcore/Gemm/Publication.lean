import Matcore.Parallel.Context

/-!
# The publication of the packed B

`prepare_b_and_execute_output_partitions` of `cpu_parallel_gemm.cpp`, step by step: each access of
an atomic is a step, and so is each access of the packed B or the output. The workers of an
execution context run it as the tasks of one submission.
-/

namespace Matcore.Gemm

open Parallel

/-- What the protocol reads of `ParallelGemmJobV1`. -/
structure ParallelGemmJob where
  parallelPackB : Bool
  columnPanelCount : ℕ
  taskCount : ℕ
  activeThreads : ℕ
  activeThreads_lt : activeThreads < 2 ^ 32

/-- Where a worker stands in the task. -/
inductive JobPc where
  /-- not called -/
  | idle
  /-- before the test of the panel loop, or inside `cpu_pack_b_column_panel_v1` -/
  | packing (panel : ℕ)
  /-- inside `prepare_b` -/
  | preparing
  /-- before the store to `packed_b_published` -/
  | publishing
  /-- before the store to `packed_b_pack_failed` -/
  | reporting
  /-- before the increment of `packed_b_workers_ready` -/
  | counting
  /-- before the first load of the waiting loop -/
  | polling
  /-- before its second load -/
  | awaiting
  /-- behind the waiting loop -/
  | checking
  /-- inside `validate_task_plan_and_packed_b` -/
  | validating
  /-- before the test of the task loop, or inside `execute_output_partition` -/
  | computing (task : ℕ)
  | finished (status : Status)
  deriving DecidableEq

/-- The atomics of a job, with the workers that run it. -/
structure JobState where
  pcs : ℕ → JobPc := fun _ => .idle
  workersReady : ℕ := 0
  packFailed : Bool := false
  published : Bool

/-- What a run shows: accesses of a panel by its packer, the packer's results, and the accesses of
an output partition to the packed B and to the output. -/
inductive JobEvent where
  | wrote (w panel : ℕ)
  | packed (w panel : ℕ)
  | packFailed (w : ℕ)
  | read (w task : ℕ)
  | stored (w task : ℕ)
  deriving DecidableEq

/-- What the code of a worker does next, where the protocol leaves it open: another access, or
the return of what it is in. -/
inductive JobChoice where
  | load
  | store (panel : ℕ)
  | advance (succeeded : Bool)

def JobState.move (s : JobState) (w : ℕ) (pc : JobPc) : JobState :=
  { s with pcs := Function.update s.pcs w pc }

namespace ParallelGemmJob

variable (job : ParallelGemmJob)

/-- The submission of `execute_parallel`. -/
def request (policy : NestingPolicy) : Request :=
  { taskCount := job.activeThreads
    activeThreads := job.activeThreads
    policy
    preflight := true
    noWrap := by have := job.activeThreads_lt; unfold sizeMax; omega }

def start : JobState := { published := job.parallelPackB }

/-- The call of the task on a worker, up to its first access. -/
def enter (s : JobState) (w : ℕ) : JobState :=
  s.move w (
    if w ≥ job.activeThreads then .finished .callbackFailed
    else if job.parallelPackB then .packing w
    else if w = 0 then .preparing
    else .counting)

/-- The next step of a worker inside the task. -/
def step (s : JobState) (w : ℕ) (choice : JobChoice) : Option (JobState × List JobEvent) :=
  match s.pcs w, choice with
  | .packing panel, .store _ =>
    if panel < job.columnPanelCount then some (s, [.wrote w panel]) else none
  | .packing panel, .advance succeeded =>
    if panel < job.columnPanelCount then
      if succeeded then some (s.move w (.packing (panel + job.activeThreads)), [.packed w panel])
      else some (s.move w .reporting, [.packFailed w])
    else some (s.move w .counting, [])
  | .preparing, .store panel =>
    if panel < job.columnPanelCount then some (s, [.wrote w panel]) else none
  | .preparing, .advance succeeded =>
    if succeeded then
      some (s.move w .publishing, (List.range job.columnPanelCount).map (.packed w))
    else some (s.move w .reporting, [.packFailed w])
  | .publishing, .advance _ => some ({ s with published := true }.move w .counting, [])
  | .reporting, .advance _ => some ({ s with packFailed := true }.move w .counting, [])
  | .counting, .advance _ =>
    some ({ s with workersReady := s.workersReady + 1 }.move w .polling, [])
  | .polling, .advance _ => some (s.move w (if s.packFailed then .checking else .awaiting), [])
  | .awaiting, .advance _ =>
    let waits : Bool :=
      if job.parallelPackB then s.workersReady ≠ job.activeThreads else !s.published
    some (s.move w (if waits then .polling else .checking), [])
  | .checking, .advance _ =>
    some (s.move w (if s.packFailed then .finished .callbackFailed else .validating), [])
  | .validating, .advance succeeded =>
    some (s.move w (if succeeded then .computing w else .finished .callbackFailed), [])
  | .computing task, .load => if task < job.taskCount then some (s, [.read w task]) else none
  | .computing task, .store _ =>
    if task < job.taskCount then some (s, [.stored w task]) else none
  | .computing task, .advance succeeded =>
    if task < job.taskCount then
      some (s.move w (if succeeded then .computing (task + job.activeThreads)
        else .finished .callbackFailed), [])
    else some (s.move w (.finished .success), [])
  | _, _ => none

/-- The workers of a submission begin their tasks. -/
def observe (g : ℕ) (s : JobState) : Event → JobState
  | .task g' _ w => if g' = g then job.enter s w else s
  | _ => s

end ParallelGemmJob

/-- An execution context and a job that it runs. -/
structure JobRun where
  context : Context
  job : JobState

inductive JobRunAction where
  | context (action : Action)
  | job (w : ℕ) (choice : JobChoice)

inductive JobRunEvent where
  | context (event : Event)
  | job (event : JobEvent)
  deriving DecidableEq

/-- Whether a callback of submission `g` may end as the action says: with the status that the
task returns. -/
def JobRun.mayFinish (s : JobRun) (g : ℕ) : Action → Bool
  | .finish w status =>
    match (s.context.workers w).pc with
    | .calling g' (.task _) _ => g' ≠ g || s.job.pcs w = .finished status
    | _ => true
  | _ => true

/-- A step of the context, or of a worker inside a task of submission `g`. -/
def ParallelGemmJob.next (job : ParallelGemmJob) (g : ℕ) (s : JobRun) :
    JobRunAction → Option (JobRun × List JobRunEvent)
  | .context action =>
    if s.mayFinish g action then
      (s.context.next action).map fun (context, es) =>
        ({ context, job := es.foldl (job.observe g) s.job }, es.map .context)
    else none
  | .job w choice =>
    match (s.context.workers w).pc with
    | .calling g' (.task _) false =>
      if g' = g then
        (job.step s.job w choice).map fun (job, es) => ({ s with job }, es.map .job)
      else none
    | _ => none

/-- The run of a context of `workerCount` workers, of which submission `g` runs the job. -/
abbrev ParallelGemmJob.run (job : ParallelGemmJob) (g workerCount : ℕ)
    (actions : List JobRunAction) : Option (JobRun × List JobRunEvent) :=
  Trace.run (job.next g) { context := .create workerCount, job := job.start } actions

end Matcore.Gemm
