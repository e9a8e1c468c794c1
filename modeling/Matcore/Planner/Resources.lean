import Matcore.Gemm.Parallel
import Matcore.Planner.Host

/-!
# Resources of an execution context

What the runtime tells the planner of its implementations: `cpu_backend_registry.cpp` and
`cpu_planner_v3_resources.cpp`. And what it asks of the plan: `make_advanced_gemm_plan_v3` and
`selected_workspace_breakdown_v2` of `cpu_runtime.cpp`.
-/

namespace Matcore.Planner

open Gemm Platform

/-- What the build and the processor say of the packed code for an instruction set. -/
structure PackedBackend where
  buildAvailable : Bool
  runtimeUsable : Bool

/-- What is read of `OpenBlasProviderInfoV1` and `OpenBlasConformanceReportV1`. -/
structure OpenBlasProvider where
  linkedAtBuild : Bool
  linked : Bool
  maximumReportedThreads : ℤ
  probeAttempted : Bool
  conformant : Bool

/-- What the process finds out about itself. -/
structure Machine where
  backend : Isa → PackedBackend
  openblas : OpenBlasProvider
  vectorizationAvailable : Bool
  packedAvx2SelfTest : Bool

inductive CpuExternalProviderProbe where
  | exclude
  | include
  deriving DecidableEq

/-- What is read of `CpuRuntimeValidationEvidenceV1`. -/
structure CpuRuntimeValidationEvidence where
  version : ℕ := 1
  referenceF32RuntimeValidated : Bool := false
  tiledF32RuntimeValidated : Bool := false
  compilerVectorizedF32RuntimeValidated : Bool := false
  externalOpenblasF32RuntimeValidated : Bool := false
  packedAvx2F32RuntimeValidated : Bool := false
  packedAvx512F32RuntimeValidated : Bool := false
  parallelAvx2F32RuntimeValidated : Bool := false
  parallelAvx512F32RuntimeValidated : Bool := false

/-- The result of a query, when there is one. -/
def queried (problem : CpuGemmProblem) : Option WorkspaceRequirements :=
  (workspaceRequirements problem .transientAAndB).toOption

/-- `discover_cpu_gemm_implementation_resources_v1`. -/
def discoverResources (machine : Machine) (problem : CpuGemmProblem) (requestedThreads : ℕ)
    (probe : CpuExternalProviderProbe) : CpuGemmImplementationResourcesV1 :=
  let provider := machine.openblas
  let control := provider.linked && provider.conformant
  let resources : CpuGemmImplementationResourcesV1 :=
    if probe = .include then
      { openblasLinked := provider.linked
        openblasConformanceEvaluated := provider.probeAttempted
        openblasConformant := provider.conformant
        openblasLocalThreadControl := control
        openblasMaximumThreads := if control && provider.maximumReportedThreads > 0 then 1 else 0 }
    else { openblasLinked := provider.linkedAtBuild }
  let query := queried problem
  { resources with
    nativePackedAvx2FmaCompiled := (machine.backend .avx2).buildAvailable
    nativePackedWorkspaceSizeValid := query.isSome
    nativePackedWorkspaceBytes := (query.map (·.totalBytes)).getD 0
    nativePackedWorkspaceAlignment := (query.map (·.alignmentBytes)).getD 0
    requestedThreads }

/-- The outputs of `populate_parallel_workspace`. -/
structure ParallelWorkspace where
  valid : Bool := false
  sharedBytes : ℕ := 0
  perWorkerBytes : ℕ := 0
  alignment : ℕ := 0

/-- `populate_parallel_workspace`, where `std::size_t` has 64 bits. -/
def populateParallelWorkspace (query : Option ParallelWorkspaceRequirements) :
    ParallelWorkspace :=
  match query with
  | none => {}
  | some requirements =>
    let sizes : ParallelWorkspace :=
      { sharedBytes := requirements.workerRegionOffset
        perWorkerBytes := requirements.perWorkerStrideBytes }
    if requirements.alignmentBytes > 2 ^ 32 - 1 then sizes
    else { sizes with valid := true, alignment := requirements.alignmentBytes }

/-- `augment_cpu_gemm_implementation_resources_v2`. -/
def augmentResources (machine : Machine) (problem : CpuGemmProblem)
    (baseline : CpuGemmImplementationResourcesV1) (info : Option CpuExecutionContextInfo)
    (evidence : CpuRuntimeValidationEvidence) : CpuGemmImplementationResourcesV2 :=
  let valid : Bool := evidence.version = 1
  let avx2 := machine.backend .avx2
  let avx512 := machine.backend .avx512
  let sliced := populateParallelWorkspace (parallelWorkspaceRequirements problem 1).toOption
  let query := queried problem
  { baseline
    referenceF32RuntimeValidated := valid && evidence.referenceF32RuntimeValidated
    tiledF32RuntimeValidated := valid && evidence.tiledF32RuntimeValidated
    compilerVectorizedF32RuntimeValidated :=
      valid && evidence.compilerVectorizedF32RuntimeValidated
    externalOpenblasF32RuntimeValidated :=
      valid && baseline.openblasLinked && evidence.externalOpenblasF32RuntimeValidated
    nativePackedAvx2FmaRuntimeValidated :=
      valid && evidence.packedAvx2F32RuntimeValidated && avx2.runtimeUsable
    executionContextAvailable := (info.map (·.acceptingWork)).getD false
    executionContextWorkerCapacity := (info.map (·.actualWorkerCount)).getD 0
    nativeParallelAvx2FmaCompiled := avx2.buildAvailable
    nativeParallelAvx2FmaRuntimeValidated :=
      valid && evidence.parallelAvx2F32RuntimeValidated && avx2.runtimeUsable
    nativeParallelAvx2WorkspaceSizeValid := sliced.valid
    nativeParallelAvx2SharedWorkspaceBytes := sliced.sharedBytes
    nativeParallelAvx2PerWorkerWorkspaceBytes := sliced.perWorkerBytes
    nativeParallelAvx2WorkspaceAlignment := sliced.alignment
    nativePackedAvx512FmaCompiled := avx512.buildAvailable
    nativePackedAvx512FmaRuntimeValidated :=
      valid && evidence.packedAvx512F32RuntimeValidated && avx512.runtimeUsable
    nativePackedAvx512WorkspaceSizeValid :=
      query.any fun requirements => !(requirements.alignmentBytes > 2 ^ 32 - 1 : Bool)
    nativePackedAvx512WorkspaceBytes := (query.map (·.totalBytes)).getD 0
    nativePackedAvx512WorkspaceAlignment :=
      ((query.map (·.alignmentBytes)).filter (· ≤ 2 ^ 32 - 1)).getD 0
    nativeParallelAvx512FmaCompiled := avx512.buildAvailable
    nativeParallelAvx512FmaRuntimeValidated :=
      valid && evidence.parallelAvx512F32RuntimeValidated && avx512.runtimeUsable
    nativeParallelAvx512WorkspaceSizeValid := sliced.valid
    nativeParallelAvx512SharedWorkspaceBytes := sliced.sharedBytes
    nativeParallelAvx512PerWorkerWorkspaceBytes := sliced.perWorkerBytes
    nativeParallelAvx512WorkspaceAlignment := sliced.alignment }

inductive ContextAffinityPolicy where
  | none
  | compact
  | scatter
  deriving DecidableEq

inductive ContextSmtPolicy where
  | physicalCoresOnly
  | allow
  deriving DecidableEq

/-- What planning reads of `matcore_cpu_execution_context_v1`. -/
structure ExecutionContext where
  workers : CpuExecutionContextInfo
  validationEvidence : CpuRuntimeValidationEvidence
  capabilities : CpuCapabilities
  availableTopology : CpuTopology
  placementEvidence : CpuPlannerPlacementEvidence
  affinityPolicy : ContextAffinityPolicy := .none
  smtPolicy : ContextSmtPolicy := .physicalCoresOnly
  workerAffinityInducedBySmtPolicy : Bool := false
  workerAffinityInducedByNumaPolicy : Bool := false

/-- What `make_advanced_gemm_plan_v3` hands to the planner. The options have a `std::uint32_t`
for the threads. -/
def ExecutionContext.hostInput (context : ExecutionContext) (machine : Machine)
    (problem : CpuGemmProblem) (requestedThreads : Fin (2 ^ 32)) : HostInput :=
  let discovered := discoverResources machine problem requestedThreads .include
  let baseline :=
    { discovered with
      nativePackedAvx2FmaCompiled :=
        discovered.nativePackedAvx2FmaCompiled && machine.packedAvx2SelfTest }
  let resources :=
    augmentResources machine problem baseline (some context.workers) context.validationEvidence
  { problem
    capabilities := context.capabilities
    topology := context.availableTopology
    policy :=
      { requestedThreads
        maximumThreads := context.workers.actualWorkerCount
        allowSmt := context.smtPolicy = .allow
        workerAffinityActive := context.affinityPolicy ≠ .none ||
          context.workerAffinityInducedBySmtPolicy || context.workerAffinityInducedByNumaPolicy }
    resources :=
      { resources with
        nativeParallelAvx2FmaCompiled :=
          resources.nativeParallelAvx2FmaCompiled && machine.packedAvx2SelfTest }
    placement := context.placementEvidence }

/-- `make_advanced_gemm_plan_v3`. -/
def makeAdvancedGemmPlan (context : ExecutionContext) (machine : Machine)
    (problem : CpuGemmProblem) (requestedThreads : Fin (2 ^ 32)) (request : CpuGemmRequestV3) :
    CpuGemmPlanV3 :=
  planForHost cpuGemmVariantRegistryV3 machine.vectorizationAvailable
    (context.hostInput machine problem requestedThreads) request

structure WorkspaceBreakdown where
  total : ℕ := 0
  shared : ℕ := 0
  perWorker : ℕ := 0
  alignment : ℕ := 0
  threads : ℕ := 0

/-- `selected_workspace_breakdown_v2`. -/
def selectedWorkspaceBreakdown (plan : CpuGemmPlanV3) : Option WorkspaceBreakdown :=
  if plan.status ≠ .selected then none
  else
    match plan.candidates[plan.selectedVariant.value]? with
    | none => none
    | some candidate =>
      let result : WorkspaceBreakdown :=
        { total := candidate.requiredWorkspaceBytes
          shared := candidate.sharedWorkspaceBytes
          perWorker := candidate.perWorkerWorkspaceBytes
          alignment := candidate.requiredWorkspaceAlignment
          threads := candidate.actualThreads }
      if result.perWorker ≠ 0 ∧ result.threads > (uint64Max - result.shared) / result.perWorker then
        none
      else if result.shared + result.perWorker * result.threads ≠ result.total then none
      else some result

end Matcore.Planner
