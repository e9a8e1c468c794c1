import Matcore.Planner.V3

/-!
# Planning for a host

The projections of a capability record and of a topology onto what the planner reads, and the
overload of `plan_cpu_gemm_v3` that takes the records (`cpu_planner_v3.cpp`).
-/

namespace Matcore.Planner

open Gemm Platform

structure CpuPlannerCapabilityProjection where
  valid : Bool := false
  reason : String := ""
  baseline : CpuCapabilitiesV1 := {}
  avx512fHardware : Bool := false
  avx512fOsEnabled : Bool := false
  avx512fCompilerSupported : Bool := false
  avx512fImplementationAvailable : Bool := false
  avx512fRuntimeValidated : Bool := false
  avx2ImplementationAvailable : Bool := false
  avx2RuntimeValidated : Bool := false
  fmaImplementationAvailable : Bool := false
  fmaRuntimeValidated : Bool := false

/-- What discovery knows of a feature, whether it is there or not. -/
def discoveryKnows (capabilities : CpuCapabilities) (feature : CpuFeatureV2) : Bool :=
  capabilities.hardware.featureKnown feature && capabilities.osEnabled.featureKnown feature &&
    capabilities.compiler.featureKnown feature

/-- A feature of version 1, where the one of version 2 is usable. -/
def projectFeature (capabilities : CpuCapabilities) (feature : CpuFeatureV2)
    (projected : CpuFeatureV1) : BitVec 64 :=
  if capabilities.hasUsableFeature feature then featureBitV1 projected else 0

def projectBaseline (capabilities : CpuCapabilities) : CpuCapabilitiesV1 :=
  { architecture :=
      match capabilities.architecture with
      | .x86_64 => .x86_64
      | .aarch64 => .aarch64
      | .unknown | .outside => .unknown
    detectionComplete :=
      capabilities.architecture ≠ .unknown && discoveryKnows capabilities .portableScalarF32 &&
        (capabilities.architecture ≠ .x86_64 ||
          (discoveryKnows capabilities .avx2 && discoveryKnows capabilities .fma))
    features :=
      projectFeature capabilities .portableScalarF32 .portableScalarF32 |||
        projectFeature capabilities .avx2 .avx2 ||| projectFeature capabilities .fma .fma
    usableVectorBits := capabilities.usableVectorBits }

/-- `project_cpu_capabilities_v2_for_planner_v1`. -/
def projectCpuCapabilities (capabilities : CpuCapabilities) : CpuPlannerCapabilityProjection :=
  match validateCpuCapabilities capabilities with
  | some reason => { reason }
  | none =>
    { valid := true
      baseline := projectBaseline capabilities
      avx512fHardware := capabilities.hardware.featureAvailable .avx512f
      avx512fOsEnabled := capabilities.osEnabled.featureAvailable .avx512f
      avx512fCompilerSupported := capabilities.compiler.featureAvailable .avx512f
      avx512fImplementationAvailable := capabilities.implementation.featureAvailable .avx512f
      avx512fRuntimeValidated := capabilities.hasRuntimeValidatedFeature .avx512f
      avx2ImplementationAvailable := capabilities.implementation.featureAvailable .avx2
      avx2RuntimeValidated := capabilities.hasRuntimeValidatedFeature .avx2
      fmaImplementationAvailable := capabilities.implementation.featureAvailable .fma
      fmaRuntimeValidated := capabilities.hasRuntimeValidatedFeature .fma }

/-- `project_cpu_topology_v1_for_planner_v1`. -/
def projectCpuTopology (topology : CpuTopology) (availableProcessorsOverride : ℕ) :
    CpuPlannerTopologyView :=
  let logicalProcessors := logicalCpuCount topology
  let availableProcessors :=
    if availableProcessorsOverride = 0 then logicalProcessors else availableProcessorsOverride
  let numaNodeIdsComplete : Bool := topology.numaNodes.length ≤ reportedNumaNodeLimit
  { discoveryComplete :=
      (validateCpuTopology topology).isNone && topology.discoveryComplete &&
        !(availableProcessors > logicalProcessors : Bool) &&
        !(availableProcessorsOverride ≠ 0 && availableProcessorsOverride ≠ logicalProcessors) &&
        numaNodeIdsComplete
    logicalProcessors
    physicalCores := physicalCoreCount topology
    availableProcessors
    numaNodes := numaNodeCount topology
    numaNodeIdsComplete
    numaNodeIds :=
      if numaNodeIdsComplete then
        Vector.ofFn fun index => (topology.numaNodes[index.val]?.map (·.nodeId)).getD 0
      else Vector.replicate 16 0 }

/-- The resources, as far as the capability record has them. -/
def normalizeResources (resources : CpuGemmImplementationResourcesV2)
    (capability : CpuPlannerCapabilityProjection) : CpuGemmImplementationResourcesV2 :=
  { resources with
    avx512fHardware := capability.avx512fHardware
    avx512fOsEnabled := capability.avx512fOsEnabled
    avx512fCompilerSupported := capability.avx512fCompilerSupported
    baseline :=
      { resources.baseline with
        nativePackedAvx2FmaCompiled := resources.baseline.nativePackedAvx2FmaCompiled &&
          capability.avx2ImplementationAvailable && capability.fmaImplementationAvailable }
    nativeParallelAvx2FmaCompiled := resources.nativeParallelAvx2FmaCompiled &&
      capability.avx2ImplementationAvailable && capability.fmaImplementationAvailable
    nativePackedAvx2FmaRuntimeValidated := resources.nativePackedAvx2FmaRuntimeValidated &&
      capability.avx2RuntimeValidated && capability.fmaRuntimeValidated
    nativePackedAvx512FmaCompiled := resources.nativePackedAvx512FmaCompiled &&
      capability.avx512fImplementationAvailable
    nativeParallelAvx512FmaCompiled := resources.nativeParallelAvx512FmaCompiled &&
      capability.avx512fImplementationAvailable
    nativePackedAvx512FmaRuntimeValidated := resources.nativePackedAvx512FmaRuntimeValidated &&
      capability.avx512fRuntimeValidated }

/-- All that the overload over the records is given besides the request. -/
structure HostInput where
  problem : CpuGemmProblem
  capabilities : CpuCapabilities
  topology : CpuTopology
  policy : CpuThreadPolicy
  resources : CpuGemmImplementationResourcesV2
  availableProcessorsOverride : ℕ := 0
  placement : CpuPlannerPlacementEvidence := {}

def HostInput.projected (host : HostInput) : PlannerInput :=
  let capability := projectCpuCapabilities host.capabilities
  { problem := host.problem
    capabilities := capability.baseline
    topology := projectCpuTopology host.topology host.availableProcessorsOverride
    policy := host.policy
    resources := normalizeResources host.resources capability
    placement := host.placement }

/-- `plan_cpu_gemm_v3` over records and any registry. -/
def planForHost (registry : List CpuGemmVariantRecordV3) (buildAvailable : Bool)
    (host : HostInput) (request : CpuGemmRequestV3) : CpuGemmPlanV3 :=
  let capability := projectCpuCapabilities host.capabilities
  let input := host.projected
  if !capability.valid then
    { problem := input.problem
      baselineCapabilities := input.capabilities
      topology := input.topology
      threadPolicy := input.policy
      placement := input.placement
      resources := input.resources
      request
      status := .invalidCapabilities
      selectionReason := capability.reason
      candidates := registry.map fun record =>
        let decision := populateResourceMetadata input.resources (populateRequirementMetadata
          { variant := record.variant
            stableId := record.stableId
            deterministicPriority := record.deterministicPriority })
        { decision with reason := capability.reason } }
  else planOverV3 registry buildAvailable input request

end Matcore.Planner
