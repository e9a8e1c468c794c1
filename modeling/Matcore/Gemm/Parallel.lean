import Matcore.Gemm.Contract
import Matcore.Lib.Except
import Matcore.Parallel.Context

/-!
# The contract of the parallel GEMM

The workspace layout and the checks of `execute_parallel` of `cpu_parallel_gemm.cpp`, up to the
submission to the execution context. The two backends lay out their workspaces alike.
-/

namespace Matcore.Gemm

inductive CpuParallelGemmStatus where
  | success
  | invalidProblem
  | nullPointer
  | invalidPointerAlignment
  | aliasViolation
  | arithmeticOverflow
  | isaUnavailable
  | workspaceMisaligned
  | workspaceInsufficient
  | invalidThreadCount
  | contextUnavailable
  | nestedParallelismRejected
  | workerTaskFailed
  | unsupportedFpEnvironment

def mapPackedStatus : CpuPackedGemmStatus → CpuParallelGemmStatus
  | .success => .success
  | .invalidProblem => .invalidProblem
  | .nullPointer => .nullPointer
  | .invalidPointerAlignment => .invalidPointerAlignment
  | .aliasViolation => .aliasViolation
  | .arithmeticOverflow => .arithmeticOverflow
  | .isaUnavailable => .isaUnavailable
  | .workspaceMisaligned => .workspaceMisaligned
  | .workspaceInsufficient => .workspaceInsufficient
  | .invalidPrepackedB => .invalidProblem

/-- `CpuParallelGemmWorkspaceRequirementsV1`. -/
structure ParallelWorkspaceRequirements where
  executionThreads : ℕ := 0
  alignmentBytes : ℕ := workspaceAlignment
  sharedPackedBOffset : ℕ := 0
  sharedPackedBBytes : ℕ := 0
  workerRegionOffset : ℕ := 0
  perWorkerBytes : ℕ := 0
  perWorkerStrideBytes : ℕ := 0
  totalBytes : ℕ := 0

/-- `checked_round_up` of `cpu_parallel_gemm.cpp`, to a power of two. -/
def checkedRoundUpPower (value alignment : ℕ) : Option ℕ :=
  if alignment = 0 ∨ alignment &&& (alignment - 1) ≠ 0 then none
  else
    let remainder := value &&& (alignment - 1)
    if remainder = 0 then some value
    else
      let increment := alignment - remainder
      if increment > uint64Max - value then none else some (value + increment)

/-- The rows of a problem that one worker packs at a time. -/
def workerBand (problem : CpuGemmProblem) : CpuGemmProblem :=
  if problem.m > packedMc then { problem with m := packedMc, m_lt := by decide } else problem

/-- The region of the workers, and what a worker has of it. -/
def sliceWorkspace (executionThreads : ℕ) (packedB packedA : WorkspaceRequirements) :
    Option ParallelWorkspaceRequirements := do
  let workerRegionOffset ← checkedRoundUpPower packedB.totalBytes workspaceAlignment
  let workerStride ← checkedRoundUpPower packedA.totalBytes workspaceAlignment
  let workerBytes ← checkedMultiply workerStride executionThreads
  if workerBytes > uint64Max - workerRegionOffset then none
  else
    return {
      executionThreads
      sharedPackedBBytes := packedB.totalBytes
      workerRegionOffset
      perWorkerBytes := packedA.totalBytes
      perWorkerStrideBytes := workerStride
      totalBytes := workerRegionOffset + workerBytes }

/-- `workspace_requirements`. -/
def parallelWorkspaceRequirements (problem : CpuGemmProblem) (executionThreads : ℕ) :
    Except CpuParallelGemmStatus ParallelWorkspaceRequirements :=
  if executionThreads = 0 then .error .invalidThreadCount
  else do
    let packedB ← (prepackedBRequirements problem).mapError mapPackedStatus
    let packedA ← (workspaceRequirements (workerBand problem)
      .transientAWithPrepackedB).mapError mapPackedStatus
    match sliceWorkspace executionThreads packedB packedA with
    | some requirements => .ok requirements
    | none => .error .arithmeticOverflow

/-- The buffers that `execute_parallel` is given. -/
structure ParallelBuffers where
  lhs : ℕ
  rhs : ℕ
  out : ℕ
  workspace : ℕ
  workspaceBytes : ℕ

namespace ParallelBuffers

variable (buffers : ParallelBuffers)

/-- The spans of the tensors and of the workspace. -/
def spans (problem : CpuGemmProblem) (totalBytes : ℕ) : Option (TensorSpans × ByteSpan) := do
  let m := problem.m.toNat
  let n := problem.n.toNat
  let k := problem.k.toNat
  let lhs ← makeMatrixSpan buffers.lhs m k
  let rhs ← makeMatrixSpan buffers.rhs k n
  let out ← makeMatrixSpan buffers.out m n
  let workspace ← makeSpan buffers.workspace totalBytes
  return ({ lhs, rhs, out }, workspace)

/-- `validate_tensor_and_workspace`. -/
def validate (problem : CpuGemmProblem) (requirements : ParallelWorkspaceRequirements) :
    Option CpuParallelGemmStatus :=
  let alignment := problem.minimumAlignmentBytes
  firstRefusal [
    (buffers.lhs = 0 || buffers.rhs = 0 || buffers.out = 0 || buffers.workspace = 0,
      .nullPointer),
    (!pointerHasAlignment buffers.lhs 4 || !pointerHasAlignment buffers.rhs 4 ||
      !pointerHasAlignment buffers.out 4 || !pointerHasAlignment buffers.lhs alignment ||
      !pointerHasAlignment buffers.rhs alignment || !pointerHasAlignment buffers.out alignment,
      .invalidPointerAlignment),
    (!pointerHasAlignment buffers.workspace requirements.alignmentBytes, .workspaceMisaligned),
    (buffers.workspaceBytes < requirements.totalBytes, .workspaceInsufficient)] <|>
  match buffers.spans problem requirements.totalBytes with
  | none => some .arithmeticOverflow
  | some (spans, workspace) =>
    firstRefusal [
      (overlaps spans.out spans.lhs || overlaps spans.out spans.rhs ||
        overlaps workspace spans.lhs || overlaps workspace spans.rhs ||
        overlaps workspace spans.out, .aliasViolation)]

end ParallelBuffers

/-- What `execute_parallel` reads of `CpuExecutionContextInfoV1`. -/
structure CpuExecutionContextInfo where
  actualWorkerCount : ℕ
  acceptingWork : Bool

/-- The checks of `execute_parallel` and what they settle on. -/
def preflightParallel (runtimeUsable : Bool) (info : CpuExecutionContextInfo)
    (problem : CpuGemmProblem) (buffers : ParallelBuffers) (requestedThreads : ℕ)
    (nesting : Parallel.NestingPolicy) :
    Except CpuParallelGemmStatus (CpuParallelTaskPlan × ParallelWorkspaceRequirements) :=
  if requestedThreads = 0 then .error .invalidThreadCount
  else if nesting = .other then .error .invalidProblem
  else do
    let _ ← (workspaceRequirements problem .transientAAndB).mapError mapPackedStatus
    let plan := planCpuParallelTasks problem requestedThreads
    match firstRefusal [
      (!runtimeUsable, CpuParallelGemmStatus.isaUnavailable),
      (!info.acceptingWork || info.actualWorkerCount = 0, .contextUnavailable),
      (requestedThreads > info.actualWorkerCount, .invalidThreadCount),
      (plan.actualThreads = 0, .invalidThreadCount),
      (nesting = .externalProviderActive && plan.actualThreads > 1,
        .nestedParallelismRejected)] with
    | some status => .error status
    | none =>
      let requirements ← parallelWorkspaceRequirements problem plan.actualThreads
      match buffers.validate problem requirements with
      | some status => .error status
      | none => .ok (plan, requirements)

end Matcore.Gemm
