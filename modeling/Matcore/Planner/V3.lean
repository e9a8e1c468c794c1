import Matcore.Planner.V2
import Matcore.Platform.Topology

/-!
# The CPU planner, version 3

`cpu_planner_v3.h` and `cpu_planner_v3.cpp` up to `plan_cpu_gemm_v3` over injected evidence: the
topology view, the thread policy and the placement, what every candidate is decided by, and the
plan. The first five candidates are also asked of version 2.
-/

namespace Matcore.Planner

open Gemm Platform

inductive CpuGemmVariantV3 where
  | reference
  | tiled
  | compilerVectorized
  | externalOpenblas
  | nativePackedAvx2Fma
  | nativePackedAvx512Fma
  | nativeParallelAvx2Fma
  | nativeParallelAvx512Fma
  deriving DecidableEq

/-- `outside` is a value that is none of the enumerators. -/
inductive CpuGemmRequestV3 where
  | automatic
  | forceReference
  | forceTiled
  | forceCompilerVectorized
  | forceExternalOpenblas
  | forceNativePackedAvx2Fma
  | forceNativePackedAvx512Fma
  | forceNativeParallelAvx2Fma
  | forceNativeParallelAvx512Fma
  | outside
  deriving DecidableEq

def CpuGemmVariantV3.value : CpuGemmVariantV3 → ℕ
  | .reference => 0
  | .tiled => 1
  | .compilerVectorized => 2
  | .externalOpenblas => 3
  | .nativePackedAvx2Fma => 4
  | .nativePackedAvx512Fma => 5
  | .nativeParallelAvx2Fma => 6
  | .nativeParallelAvx512Fma => 7

def CpuGemmRequestV3.value : CpuGemmRequestV3 → ℕ
  | .automatic => 0
  | .forceReference => 1
  | .forceTiled => 2
  | .forceCompilerVectorized => 3
  | .forceExternalOpenblas => 4
  | .forceNativePackedAvx2Fma => 5
  | .forceNativePackedAvx512Fma => 6
  | .forceNativeParallelAvx2Fma => 7
  | .forceNativeParallelAvx512Fma => 8
  | .outside => 9

def reportedNumaNodeLimit : ℕ := 16
def parallelMinimumWorkPerThread : ℕ := 2 ^ 20

structure CpuPlannerTopologyView where
  version : ℕ := 1
  discoveryComplete : Bool := false
  logicalProcessors : ℕ := 0
  physicalCores : ℕ := 0
  availableProcessors : ℕ := 0
  numaNodes : ℕ := 0
  numaNodeIdsComplete : Bool := false
  numaNodeIds : Vector TopologyId 16 := Vector.replicate 16 0

structure CpuThreadPolicy where
  version : ℕ := 1
  requestedThreads : ℕ := 1
  maximumThreads : ℕ := 0
  allowSmt : Bool := false
  externalProviderParallelismActive : Bool := false
  workerAffinityActive : Bool := false

/-- `outside` is a value that is none of the enumerators. -/
inductive CpuPlannerNumaPolicy where
  | singleNode
  | localFirst
  | outside
  deriving DecidableEq

structure CpuPlannerPlacementEvidence where
  version : ℕ := 1
  evidenceComplete : Bool := false
  affinityRequested : Bool := false
  affinityApplied : Bool := false
  affinity : CpuAffinityPolicy := .compact
  numa : CpuPlannerNumaPolicy := .singleNode
  localLogicalProcessorCapacity : ℕ := 0
  localPhysicalCoreCapacity : ℕ := 0
  selectedNumaNodeCount : ℕ := 0
  selectedNumaNodes : Vector TopologyId 16 := Vector.replicate 16 0
  crossesNumaNodes : Bool := false
  callerFirstTouchRequired : Bool := false

structure CpuGemmImplementationResourcesV2 where
  baseline : CpuGemmImplementationResourcesV1 := {}
  referenceF32RuntimeValidated : Bool := false
  tiledF32RuntimeValidated : Bool := false
  compilerVectorizedF32RuntimeValidated : Bool := false
  externalOpenblasF32RuntimeValidated : Bool := false
  nativePackedAvx2FmaRuntimeValidated : Bool := false
  executionContextAvailable : Bool := false
  executionContextWorkerCapacity : ℕ := 0
  nativeParallelAvx2FmaCompiled : Bool := false
  nativeParallelAvx2FmaRuntimeValidated : Bool := false
  nativeParallelAvx2WorkspaceSizeValid : Bool := false
  nativeParallelAvx2SharedWorkspaceBytes : ℕ := 0
  nativeParallelAvx2PerWorkerWorkspaceBytes : ℕ := 0
  nativeParallelAvx2WorkspaceAlignment : ℕ := 0
  nativePackedAvx512FmaCompiled : Bool := false
  nativePackedAvx512FmaRuntimeValidated : Bool := false
  nativePackedAvx512WorkspaceSizeValid : Bool := false
  nativePackedAvx512WorkspaceBytes : ℕ := 0
  nativePackedAvx512WorkspaceAlignment : ℕ := 0
  nativeParallelAvx512FmaCompiled : Bool := false
  nativeParallelAvx512FmaRuntimeValidated : Bool := false
  nativeParallelAvx512WorkspaceSizeValid : Bool := false
  nativeParallelAvx512SharedWorkspaceBytes : ℕ := 0
  nativeParallelAvx512PerWorkerWorkspaceBytes : ℕ := 0
  nativeParallelAvx512WorkspaceAlignment : ℕ := 0
  avx512fHardware : Bool := false
  avx512fOsEnabled : Bool := false
  avx512fCompilerSupported : Bool := false

/-- All that `plan_cpu_gemm_v3` is given besides the request. -/
structure PlannerInput where
  problem : CpuGemmProblem
  capabilities : CpuCapabilitiesV1
  topology : CpuPlannerTopologyView
  policy : CpuThreadPolicy
  resources : CpuGemmImplementationResourcesV2
  placement : CpuPlannerPlacementEvidence := {}

structure CpuGemmVariantRecordV3 where
  variant : CpuGemmVariantV3
  stableId : String
  deterministicPriority : ℕ

def cpuGemmVariantRegistryV3 : List CpuGemmVariantRecordV3 := [
  { variant := .reference, stableId := "cpu.reference.f32.v1", deterministicPriority := 80 },
  { variant := .tiled, stableId := "cpu.tiled.f32.v1", deterministicPriority := 70 },
  { variant := .compilerVectorized, stableId := "cpu.compiler-vectorized.avx2-fma.f32.v1"
    deterministicPriority := 60 },
  { variant := .externalOpenblas, stableId := "cpu.external.openblas.f32.v1"
    deterministicPriority := 10 },
  { variant := .nativePackedAvx2Fma, stableId := "cpu.native-packed.avx2-fma.f32.v1"
    deterministicPriority := 50 },
  { variant := .nativePackedAvx512Fma, stableId := "cpu.native-packed.avx512-fma.f32.v1"
    deterministicPriority := 40 },
  { variant := .nativeParallelAvx2Fma, stableId := "cpu.native-parallel.avx2-fma.f32.v1"
    deterministicPriority := 30 },
  { variant := .nativeParallelAvx512Fma, stableId := "cpu.native-parallel.avx512-fma.f32.v1"
    deterministicPriority := 20 }]

structure CpuCandidateDecisionV3 extends Candidate CpuGemmVariantV3 where
  requiredWorkspaceBytes : ℕ := 0
  requiredWorkspaceAlignment : ℕ := 1
  actualThreads : ℕ := 0
  requestedThreadCeiling : ℕ := 0
  parallelRowTasks : ℕ := 0
  parallelColumnTasks : ℕ := 0
  parallelTaskCount : ℕ := 0
  threadCapacityLimited : Bool := false
  sharedWorkspaceBytes : ℕ := 0
  perWorkerWorkspaceBytes : ℕ := 0
  requiredHardwareFeatures : BitVec 64 := 0
  requiredOsFeatures : BitVec 64 := 0
  requiredCompilerFeatures : BitVec 64 := 0
  requiredImplementationFeatures : BitVec 64 := 0
  runtimeValidated : Bool := false
  crossesNumaNodes : Bool := false

structure CpuGemmPlanV3 where
  status : CpuPlanStatus := .noLegalVariant
  problem : CpuGemmProblem
  baselineCapabilities : CpuCapabilitiesV1
  topology : CpuPlannerTopologyView
  threadPolicy : CpuThreadPolicy
  placement : CpuPlannerPlacementEvidence
  resources : CpuGemmImplementationResourcesV2
  request : CpuGemmRequestV3
  candidates : List CpuCandidateDecisionV3
  selectedVariant : CpuGemmVariantV3 := .reference
  selectedId : String := ""
  selectionReason : String := ""

/-- The features of the code of a variant. -/
def requiredFeatures (variant : CpuGemmVariantV3) : BitVec 64 :=
  let portable := featureBit .portableScalarF32
  match variant with
  | .reference | .tiled | .externalOpenblas => portable
  | .compilerVectorized | .nativePackedAvx2Fma | .nativeParallelAvx2Fma =>
    portable ||| (featureBit .avx2 ||| featureBit .fma)
  | .nativePackedAvx512Fma | .nativeParallelAvx512Fma =>
    portable ||| (featureBit .avx512f ||| featureBit .fma)

def populateRequirementMetadata (decision : CpuCandidateDecisionV3) : CpuCandidateDecisionV3 :=
  let required := requiredFeatures decision.variant
  { decision with
    requiredHardwareFeatures := required
    requiredOsFeatures := required
    requiredCompilerFeatures := required
    requiredImplementationFeatures := required }

/-- The workspace of a candidate that runs on one thread, when its size is known. -/
def CpuCandidateDecisionV3.withWorkspace (decision : CpuCandidateDecisionV3) (valid : Bool)
    (bytes alignment : ℕ) : CpuCandidateDecisionV3 :=
  if valid then
    { decision with
      requiredWorkspaceBytes := bytes
      sharedWorkspaceBytes := bytes
      requiredWorkspaceAlignment := alignment }
  else decision

/-- The workspace of a parallel candidate, when its size is known. -/
def CpuCandidateDecisionV3.withSlices (decision : CpuCandidateDecisionV3) (valid : Bool)
    (shared perWorker alignment : ℕ) : CpuCandidateDecisionV3 :=
  if valid then
    { decision with
      sharedWorkspaceBytes := shared
      perWorkerWorkspaceBytes := perWorker
      requiredWorkspaceAlignment := alignment }
  else decision

def runtimeValidated (resources : CpuGemmImplementationResourcesV2) : CpuGemmVariantV3 → Bool
  | .reference => resources.referenceF32RuntimeValidated
  | .tiled => resources.tiledF32RuntimeValidated
  | .compilerVectorized => resources.compilerVectorizedF32RuntimeValidated
  | .externalOpenblas => resources.externalOpenblasF32RuntimeValidated
  | .nativePackedAvx2Fma => resources.nativePackedAvx2FmaRuntimeValidated
  | .nativePackedAvx512Fma => resources.nativePackedAvx512FmaRuntimeValidated
  | .nativeParallelAvx2Fma => resources.nativeParallelAvx2FmaRuntimeValidated
  | .nativeParallelAvx512Fma => resources.nativeParallelAvx512FmaRuntimeValidated

def populateResourceMetadata (resources : CpuGemmImplementationResourcesV2)
    (decision : CpuCandidateDecisionV3) : CpuCandidateDecisionV3 :=
  let decision := { decision with runtimeValidated := runtimeValidated resources decision.variant }
  match decision.variant with
  | .reference | .tiled | .compilerVectorized | .externalOpenblas => decision
  | .nativePackedAvx2Fma =>
    decision.withWorkspace resources.baseline.nativePackedWorkspaceSizeValid
      resources.baseline.nativePackedWorkspaceBytes
      resources.baseline.nativePackedWorkspaceAlignment
  | .nativePackedAvx512Fma =>
    decision.withWorkspace resources.nativePackedAvx512WorkspaceSizeValid
      resources.nativePackedAvx512WorkspaceBytes resources.nativePackedAvx512WorkspaceAlignment
  | .nativeParallelAvx2Fma =>
    decision.withSlices resources.nativeParallelAvx2WorkspaceSizeValid
      resources.nativeParallelAvx2SharedWorkspaceBytes
      resources.nativeParallelAvx2PerWorkerWorkspaceBytes
      resources.nativeParallelAvx2WorkspaceAlignment
  | .nativeParallelAvx512Fma =>
    decision.withSlices resources.nativeParallelAvx512WorkspaceSizeValid
      resources.nativeParallelAvx512SharedWorkspaceBytes
      resources.nativeParallelAvx512PerWorkerWorkspaceBytes
      resources.nativeParallelAvx512WorkspaceAlignment

def requestMatchesV3 (request : CpuGemmRequestV3) (variant : CpuGemmVariantV3) : Bool :=
  request = .automatic || request.value = variant.value + 1

def v2Request : CpuGemmVariantV3 → CpuGemmRequestV2
  | .reference => .forceReference
  | .tiled => .forceTiled
  | .compilerVectorized => .forceCompilerVectorized
  | .externalOpenblas => .forceExternalOpenblas
  | .nativePackedAvx2Fma | .nativePackedAvx512Fma | .nativeParallelAvx2Fma
  | .nativeParallelAvx512Fma => .forceNativePackedAvx2Fma

def v2Index : CpuGemmVariantV3 → ℕ
  | .reference => 0
  | .tiled => 1
  | .compilerVectorized => 2
  | .externalOpenblas => 3
  | .nativePackedAvx2Fma | .nativePackedAvx512Fma | .nativeParallelAvx2Fma
  | .nativeParallelAvx512Fma => 4

/-- A node identifier is unknown, or not above the one before it. -/
def badNodeId (ids : Vector TopologyId 16) (index : ℕ) : Bool :=
  ids.toList.getD index 0 = unknownTopologyId ||
    (index ≠ 0 && ids.toList.getD index 0 ≤ ids.toList.getD (index - 1) 0)

def topologyReason (topology : CpuPlannerTopologyView) : Option String :=
  firstRefusal [
    (topology.version ≠ 1, "CPU planner topology view version is unsupported"),
    (!topology.discoveryComplete,
      "complete CPU topology discovery is required for parallel planning"),
    (topology.logicalProcessors = 0 || topology.physicalCores = 0 ||
      topology.availableProcessors = 0 || topology.numaNodes = 0,
      "complete CPU topology counts must be positive"),
    (!topology.numaNodeIdsComplete || topology.numaNodes > reportedNumaNodeLimit,
      "complete CPU topology NUMA-node IDs are required"),
    ((List.range topology.numaNodes).any (badNodeId topology.numaNodeIds),
      "CPU topology NUMA-node IDs must be known, unique, and sorted"),
    (topology.physicalCores > topology.logicalProcessors,
      "physical core count exceeds logical processor count"),
    (topology.availableProcessors > topology.logicalProcessors,
      "available processor count exceeds logical processor count")]

def threadPolicyReason (policy : CpuThreadPolicy) : Option String :=
  firstRefusal [
    (policy.version ≠ 1, "CPU thread policy version is unsupported"),
    (policy.requestedThreads = 0, "requested thread count must be positive")]

/-- The two checks of one selected node. Only asked of topologies without a reason, whose
identifiers are sorted: bisection finds what is among them. -/
def selectedNodeChecks (topology : CpuPlannerTopologyView)
    (placement : CpuPlannerPlacementEvidence) (index : ℕ) : List (Bool × String) := [
  (badNodeId placement.selectedNumaNodes index,
    "CPU placement NUMA-node IDs must be known, unique, and sorted"),
  (!(topology.numaNodeIds.toList.take topology.numaNodes).contains
      (placement.selectedNumaNodes.toList.getD index 0),
    "CPU placement references a NUMA node absent from topology")]

def placementReason (topology : CpuPlannerTopologyView)
    (placement : CpuPlannerPlacementEvidence) : Option String :=
  firstRefusal [
    (placement.version ≠ 1, "CPU placement evidence version is unsupported"),
    (!placement.evidenceComplete,
      "complete CPU placement evidence is required for parallel planning"),
    (placement.affinity = .outside || placement.numa = .outside,
      "CPU placement policy is invalid"),
    (placement.localLogicalProcessorCapacity = 0 || placement.localPhysicalCoreCapacity = 0 ||
      placement.localPhysicalCoreCapacity > placement.localLogicalProcessorCapacity ||
      placement.localLogicalProcessorCapacity > topology.logicalProcessors ||
      placement.localPhysicalCoreCapacity > topology.physicalCores,
      "CPU placement local capacity is invalid"),
    (placement.selectedNumaNodeCount = 0 ||
      placement.selectedNumaNodeCount > topology.numaNodes ||
      placement.selectedNumaNodeCount > reportedNumaNodeLimit,
      "CPU placement selected NUMA-node count is invalid")] <|>
  firstRefusal ((List.range placement.selectedNumaNodeCount).flatMap
    (selectedNodeChecks topology placement)) <|>
  firstRefusal [
    (placement.crossesNumaNodes ≠ decide (placement.selectedNumaNodeCount > 1),
      "CPU placement cross-NUMA evidence is inconsistent"),
    (placement.affinityApplied && !placement.affinityRequested,
      "CPU affinity cannot be applied when it was not requested"),
    (placement.affinityRequested && !placement.affinityApplied,
      "requested CPU affinity was not completely applied"),
    (placement.numa = .singleNode && placement.crossesNumaNodes,
      "single-node NUMA policy cannot cross NUMA nodes"),
    (placement.numa = .singleNode && topology.numaNodes > 1 && !placement.affinityApplied,
      "multi-node single-node policy requires applied affinity"),
    (placement.crossesNumaNodes && !placement.callerFirstTouchRequired,
      "cross-NUMA placement must expose caller-owned first touch")]

def localThreadCapacity (policy : CpuThreadPolicy) (placement : CpuPlannerPlacementEvidence) : ℕ :=
  if policy.allowSmt then placement.localLogicalProcessorCapacity
  else placement.localPhysicalCoreCapacity

def policyThreadCeiling (topology : CpuPlannerTopologyView) (policy : CpuThreadPolicy)
    (resources : CpuGemmImplementationResourcesV2) (placement : CpuPlannerPlacementEvidence) : ℕ :=
  let result := policy.requestedThreads
  let result := if policy.maximumThreads ≠ 0 then min result policy.maximumThreads else result
  let result := min result resources.executionContextWorkerCapacity
  let result := min result topology.availableProcessors
  let result :=
    min result (if policy.allowSmt then topology.logicalProcessors else topology.physicalCores)
  if placement.evidenceComplete && placement.numa = .singleNode then
    min result (localThreadCapacity policy placement)
  else result

def totalParallelWorkspace (sharedBytes perWorkerBytes threads : ℕ) : Option ℕ :=
  if perWorkerBytes ≠ 0 ∧ threads > uint64Max / perWorkerBytes then none
  else if perWorkerBytes * threads > uint64Max - sharedBytes then none
  else some (sharedBytes + perWorkerBytes * threads)

def parallelCost (problem : CpuGemmProblem) (threads : ℕ) (avx512 crossesNumaNodes : Bool) : ℕ :=
  let work := operationCount problem
  let computeFactor := if avx512 then 1 else 2
  let compute := divideRoundUp (saturatingMultiply work computeFactor) threads
  let aPack := saturatingMultiply (saturatingMultiply problem.m.toNat problem.k.toNat) 6
  let bPack := saturatingMultiply (saturatingMultiply problem.k.toNat problem.n.toNat) 6
  let result := saturatingAdd (saturatingAdd compute (saturatingAdd aPack bPack))
    (saturatingAdd 200000 (saturatingMultiply threads 20000))
  if crossesNumaNodes then
    let remoteCompute := divideRoundUp work 4
    let remotePacking := saturatingMultiply bPack 2
    saturatingAdd result (saturatingAdd (saturatingAdd remoteCompute remotePacking) 250000)
  else result

def avx512SingleCost (problem : CpuGemmProblem) : ℕ :=
  let work := operationCount problem
  let packing := saturatingAdd (saturatingMultiply problem.m.toNat problem.k.toNat)
    (saturatingMultiply problem.k.toNat problem.n.toNat)
  saturatingAdd (saturatingAdd work (saturatingMultiply packing 5)) 48000

def externalCost (problem : CpuGemmProblem) (threads : ℕ) : ℕ :=
  if problem.m = 1 then uint64Max
  else saturatingAdd (divideRoundUp (operationCount problem) threads) 2000

def useBoundPackedAvx2Calibration (problem : CpuGemmProblem) (policy : CpuThreadPolicy) : Bool :=
  policy.workerAffinityActive && policy.requestedThreads > 1 && problem.m ≥ 4 &&
    operationCount problem ≥ 2 ^ 12 && operationCount problem < 2 ^ 15

/-- The threads that the external provider may use. -/
def providerThreads (input : PlannerInput) : ℕ :=
  let topologyLimit :=
    if topologyReason input.topology = none then
      min input.topology.availableProcessors
        (if input.policy.allowSmt then input.topology.logicalProcessors
          else input.topology.physicalCores)
    else 1
  let threads := min input.policy.requestedThreads topologyLimit
  let threads :=
    if input.policy.maximumThreads ≠ 0 then min threads input.policy.maximumThreads else threads
  if input.resources.baseline.openblasLinked &&
      input.resources.baseline.openblasMaximumThreads ≠ 0 then
    min threads input.resources.baseline.openblasMaximumThreads
  else threads

/-- A decision withdrawn for a reason of this version. -/
def CpuCandidateDecisionV3.withdraw (decision : CpuCandidateDecisionV3) (reason : String) :
    CpuCandidateDecisionV3 :=
  { decision with legal := false, reason, estimatedCost := uint64Max }

def notValidatedReason : CpuGemmVariantV3 → String
  | .reference => "reference F32 implementation is not runtime-validated"
  | .tiled => "tiled F32 implementation is not runtime-validated"
  | .externalOpenblas => "OpenBLAS F32 implementation is not runtime-validated"
  | .compilerVectorized => "compiler-vectorized AVX2/FMA implementation is not runtime-validated"
  | _ => "native packed AVX2/FMA implementation is not runtime-validated"

/-- The decision of version 2, taken over. -/
def adoptBase (base : CpuCandidateDecisionV2) (decision : CpuCandidateDecisionV3) :
    CpuCandidateDecisionV3 :=
  { decision with
    legal := base.legal
    reason := base.reason
    requiredWorkspaceBytes := base.requiredWorkspaceBytes
    requiredWorkspaceAlignment := base.requiredWorkspaceAlignment
    actualThreads := base.actualThreads
    estimatedCost := base.estimatedCost
    sharedWorkspaceBytes := base.requiredWorkspaceBytes }

def rejectBoundProvider (policy : CpuThreadPolicy) (decision : CpuCandidateDecisionV3) :
    CpuCandidateDecisionV3 :=
  if decision.variant = .externalOpenblas && decision.legal && policy.workerAffinityActive &&
      decision.actualThreads > 1 then
    decision.withdraw "multi-thread OpenBLAS is unavailable under bound native workers"
  else decision

def requireValidation (resources : CpuGemmImplementationResourcesV2)
    (decision : CpuCandidateDecisionV3) : CpuCandidateDecisionV3 :=
  let decision := { decision with runtimeValidated := runtimeValidated resources decision.variant }
  if decision.legal && !decision.runtimeValidated then
    decision.withdraw (notValidatedReason decision.variant)
  else decision

def calibrateBoundPacked (input : PlannerInput) (decision : CpuCandidateDecisionV3) :
    CpuCandidateDecisionV3 :=
  if decision.variant = .nativePackedAvx2Fma && decision.legal &&
      useBoundPackedAvx2Calibration input.problem input.policy then
    { decision with
      estimatedCost := min decision.estimatedCost (operationCount input.problem) }
  else decision

def priceProvider (problem : CpuGemmProblem) (decision : CpuCandidateDecisionV3) :
    CpuCandidateDecisionV3 :=
  if decision.variant = .externalOpenblas && decision.legal then
    { decision with estimatedCost := externalCost problem decision.actualThreads }
  else decision

def decideBaseline (buildAvailable : Bool) (input : PlannerInput)
    (decision : CpuCandidateDecisionV3) : CpuCandidateDecisionV3 :=
  let v2Resources :=
    { input.resources.baseline with
      requestedThreads :=
        if decision.variant = .externalOpenblas then providerThreads input else 1 }
  let base := planCpuGemmV2 buildAvailable input.problem input.capabilities v2Resources
    (v2Request decision.variant)
  let baseDecision := (base.candidates[v2Index decision.variant]?).getD { variant := .reference }
  priceProvider input.problem (calibrateBoundPacked input (requireValidation input.resources
    (rejectBoundProvider input.policy (adoptBase baseDecision decision))))

def packedAvx512Reason (input : PlannerInput) : Option String :=
  let resources := input.resources
  let alignment := resources.nativePackedAvx512WorkspaceAlignment
  firstRefusal [
    (!resources.avx512fHardware, "AVX-512F hardware support is unavailable"),
    (!input.capabilities.detectionComplete || input.capabilities.architecture ≠ .x86_64,
      "AVX-512 F32 candidate requires complete x86_64 discovery"),
    (!hasFeature input.capabilities .fma, "AVX-512 F32 candidate requires FMA"),
    (!resources.avx512fOsEnabled, "AVX-512F architectural state is not OS-enabled"),
    (!resources.avx512fCompilerSupported, "AVX-512F compiler support is unavailable"),
    (!resources.nativePackedAvx512FmaCompiled,
      "native packed AVX-512 implementation is not compiled"),
    (!resources.nativePackedAvx512FmaRuntimeValidated,
      "native packed AVX-512 implementation is not runtime-validated"),
    (!resources.nativePackedAvx512WorkspaceSizeValid,
      "native packed AVX-512 workspace requirement overflowed"),
    (alignment < 64 || alignment &&& (alignment - 1) ≠ 0,
      "native packed AVX-512 workspace alignment is invalid")]

def decidePackedAvx512 (input : PlannerInput) (decision : CpuCandidateDecisionV3) :
    CpuCandidateDecisionV3 :=
  match packedAvx512Reason input with
  | some reason => { decision with reason }
  | none =>
    { decision with
      legal := true
      reason := "legal"
      actualThreads := 1
      requiredWorkspaceBytes := input.resources.nativePackedAvx512WorkspaceBytes
      requiredWorkspaceAlignment := input.resources.nativePackedAvx512WorkspaceAlignment
      sharedWorkspaceBytes := input.resources.nativePackedAvx512WorkspaceBytes
      runtimeValidated := true
      estimatedCost := avx512SingleCost input.problem }

def placementError (input : PlannerInput) : Option String :=
  topologyReason input.topology <|> placementReason input.topology input.placement

def threadCeiling (input : PlannerInput) : ℕ :=
  if topologyReason input.topology = none then
    policyThreadCeiling input.topology input.policy input.resources input.placement
  else 0

def parallelTasks (input : PlannerInput) : CpuParallelTaskPlan :=
  planCpuParallelTasks input.problem (threadCeiling input)

/-- What is reported of a parallel candidate whether it is legal or not. -/
def describeParallel (input : PlannerInput) (decision : CpuCandidateDecisionV3) :
    CpuCandidateDecisionV3 :=
  let tasks := parallelTasks input
  let threads := tasks.actualThreads
  let total :=
    if decision.sharedWorkspaceBytes ≠ 0 ∧ decision.perWorkerWorkspaceBytes ≠ 0 ∧ threads ≠ 0 then
      totalParallelWorkspace decision.sharedWorkspaceBytes decision.perWorkerWorkspaceBytes threads
    else none
  { decision with
    actualThreads := threads
    requestedThreadCeiling := threadCeiling input
    parallelRowTasks := tasks.rowTaskCount
    parallelColumnTasks := tasks.columnTaskCount
    parallelTaskCount := tasks.taskCount
    threadCapacityLimited := threads ≠ 0 && threads < threadCeiling input
    requiredWorkspaceBytes := total.getD decision.requiredWorkspaceBytes
    crossesNumaNodes :=
      if input.placement.evidenceComplete && input.placement.crossesNumaNodes then
        input.placement.affinity ≠ .localFirst ||
          threads > localThreadCapacity input.policy input.placement
      else decision.crossesNumaNodes }

/-- The ladder of a parallel candidate, of which `describeParallel` has made `decision`. -/
def parallelReason (input : PlannerInput) (avx512 : Bool) (decision : CpuCandidateDecisionV3) :
    Option String :=
  let resources := input.resources
  let capabilities := input.capabilities
  let threads := (parallelTasks input).actualThreads
  let alignment := decision.requiredWorkspaceAlignment
  placementError input <|> firstRefusal [
    (!resources.executionContextAvailable || resources.executionContextWorkerCapacity = 0,
      "persistent CPU execution context is unavailable"),
    (input.policy.externalProviderParallelismActive,
      "native/provider nested parallelism is prohibited"),
    ((!avx512 && !resources.nativeParallelAvx2FmaCompiled) ||
      (avx512 && !resources.nativeParallelAvx512FmaCompiled),
      if avx512 then "parallel AVX-512 implementation is not compiled"
      else "parallel AVX2/FMA implementation is not compiled"),
    (!avx512 && !resources.nativeParallelAvx2FmaRuntimeValidated,
      "parallel AVX2/FMA implementation is not runtime-validated"),
    (avx512 && !resources.nativeParallelAvx512FmaRuntimeValidated,
      "parallel AVX-512 implementation is not runtime-validated"),
    (!avx512 && (!resources.baseline.nativePackedAvx2FmaCompiled ||
      !resources.nativeParallelAvx2WorkspaceSizeValid),
      "parallel AVX2/FMA workspace implementation is unavailable"),
    (avx512 && (!resources.nativePackedAvx512FmaCompiled ||
      !resources.nativeParallelAvx512WorkspaceSizeValid),
      "parallel AVX-512 workspace implementation is unavailable"),
    (avx512 && !resources.avx512fHardware, "AVX-512F hardware support is unavailable"),
    (avx512 && (!capabilities.detectionComplete || capabilities.architecture ≠ .x86_64),
      "parallel AVX-512 requires complete x86_64 discovery"),
    (avx512 && !resources.avx512fOsEnabled, "AVX-512F architectural state is not OS-enabled"),
    (avx512 && !resources.avx512fCompilerSupported, "AVX-512F compiler support is unavailable"),
    (avx512 && !resources.nativePackedAvx512FmaRuntimeValidated,
      "native packed AVX-512 implementation is not runtime-validated"),
    (!avx512 && (!capabilities.detectionComplete || capabilities.architecture ≠ .x86_64 ||
      !hasFeature capabilities .avx2 || !hasFeature capabilities .fma ||
      capabilities.usableVectorBits < 256),
      "parallel AVX2/FMA requires usable 256-bit state"),
    (!avx512 && !resources.nativePackedAvx2FmaRuntimeValidated,
      "native packed AVX2/FMA implementation is not runtime-validated"),
    (avx512 && !hasFeature capabilities .fma, "parallel AVX-512 F32 requires FMA"),
    (threads < 2,
      "parallel candidate requires at least two disjoint output tasks and workers"),
    (divideRoundUp (operationCount input.problem) threads < parallelMinimumWorkPerThread,
      "parallel work per thread is below the deterministic threshold"),
    (decision.sharedWorkspaceBytes = 0 || decision.perWorkerWorkspaceBytes = 0,
      "parallel workspace requirements must be nonzero"),
    (alignment < 32 || alignment &&& (alignment - 1) ≠ 0,
      "parallel per-worker workspace alignment is invalid"),
    (decision.requiredWorkspaceBytes = 0, "parallel workspace requirement overflowed")]

def decideParallel (input : PlannerInput) (avx512 : Bool) (decision : CpuCandidateDecisionV3) :
    CpuCandidateDecisionV3 :=
  let decision := describeParallel input decision
  match parallelReason input avx512 decision with
  | some reason => { decision with reason }
  | none =>
    { decision with
      legal := true
      reason := "legal"
      runtimeValidated :=
        if avx512 then input.resources.nativeParallelAvx512FmaRuntimeValidated
        else input.resources.nativeParallelAvx2FmaRuntimeValidated
      estimatedCost := parallelCost input.problem (parallelTasks input).actualThreads avx512
        decision.crossesNumaNodes }

/-- The status and the reason of an input that no candidate is legal for. -/
def invalidInput (buildAvailable : Bool) (input : PlannerInput) : Option (CpuPlanStatus × String) :=
  let problemCheck := planCpuGemmV1 buildAvailable input.problem input.capabilities .forceReference
  if invalidBase problemCheck then some (problemCheck.status, problemCheck.selectionReason)
  else (threadPolicyReason input.policy).map fun reason => (.invalidCapabilities, reason)

def decideV3 (buildAvailable : Bool) (input : PlannerInput) (record : CpuGemmVariantRecordV3) :
    CpuCandidateDecisionV3 :=
  let decision : CpuCandidateDecisionV3 :=
    { variant := record.variant
      stableId := record.stableId
      deterministicPriority := record.deterministicPriority }
  let decision :=
    populateResourceMetadata input.resources (populateRequirementMetadata decision)
  match invalidInput buildAvailable input with
  | some (_, reason) => { decision with reason }
  | none =>
    match record.variant with
    | .reference | .tiled | .compilerVectorized | .externalOpenblas | .nativePackedAvx2Fma =>
      decideBaseline buildAvailable input decision
    | .nativePackedAvx512Fma => decidePackedAvx512 input decision
    | .nativeParallelAvx2Fma => decideParallel input false decision
    | .nativeParallelAvx512Fma => decideParallel input true decision

/-- `plan_cpu_gemm_v3` over any registry. -/
def planOverV3 (registry : List CpuGemmVariantRecordV3) (buildAvailable : Bool)
    (input : PlannerInput) (request : CpuGemmRequestV3) : CpuGemmPlanV3 :=
  let pass := selectFrom registry (decideV3 buildAvailable input) (·.toCandidate)
    (requestMatchesV3 request) .reference
  let plan : CpuGemmPlanV3 :=
    { problem := input.problem
      baselineCapabilities := input.capabilities
      topology := input.topology
      threadPolicy := input.policy
      placement := input.placement
      resources := input.resources
      request
      candidates := pass.candidates
      selectedVariant := pass.selection.selectedVariant
      selectedId := pass.selection.selectedId }
  match invalidInput buildAvailable input with
  | some (status, reason) => { plan with status, selectionReason := reason }
  | none =>
    if !pass.selection.found then
      if request = .automatic then
        { plan with status := .noLegalVariant, selectionReason := "no legal CPU GEMM variant" }
      else
        { plan with
          status := .forcedVariantIllegal
          selectionReason := "requested CPU GEMM variant is illegal" }
    else
      { plan with
        status := .selected
        selectionReason :=
          if request = .automatic then
            "lowest deterministic static cost; ties use priority then registry order"
          else "explicit legal variant request" }

def planCpuGemmV3 (buildAvailable : Bool) (input : PlannerInput) (request : CpuGemmRequestV3) :
    CpuGemmPlanV3 :=
  planOverV3 cpuGemmVariantRegistryV3 buildAvailable input request

end Matcore.Planner
