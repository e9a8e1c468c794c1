import Matcore.Planner.V1

/-!
# The CPU planner, version 2

`cpu_planner_v2.h`: two more candidates, an external provider and the packed backend, with the
evidence about them. The first three are also asked of version 1.
-/

namespace Matcore.Planner

open Gemm

inductive CpuGemmVariantV2 where
  | reference
  | tiled
  | compilerVectorized
  | externalOpenblas
  | nativePackedAvx2Fma
  deriving DecidableEq

/-- `outside` is a value that is none of the enumerators. -/
inductive CpuGemmRequestV2 where
  | automatic
  | forceReference
  | forceTiled
  | forceCompilerVectorized
  | forceExternalOpenblas
  | forceNativePackedAvx2Fma
  | outside
  deriving DecidableEq

structure CpuGemmImplementationResourcesV1 where
  openblasLinked : Bool := false
  openblasLocalThreadControl : Bool := false
  nativePackedAvx2FmaCompiled : Bool := false
  nativePackedWorkspaceSizeValid : Bool := false
  nativePackedWorkspaceBytes : ℕ := 0
  nativePackedWorkspaceAlignment : ℕ := 0
  openblasMaximumThreads : ℕ := 0
  requestedThreads : ℕ := 1
  openblasConformanceEvaluated : Bool := false
  openblasConformant : Bool := false

structure CpuGemmVariantRecordV2 where
  variant : CpuGemmVariantV2
  stableId : String
  requiredFeatures : BitVec 64
  deterministicPriority : ℕ

def cpuGemmVariantRegistryV2 : List CpuGemmVariantRecordV2 := [
  { variant := .reference, stableId := "cpu.reference.f32.v1"
    requiredFeatures := featureBitV1 .portableScalarF32, deterministicPriority := 50 },
  { variant := .tiled, stableId := "cpu.tiled.f32.v1"
    requiredFeatures := featureBitV1 .portableScalarF32, deterministicPriority := 40 },
  { variant := .compilerVectorized, stableId := "cpu.compiler-vectorized.avx2-fma.f32.v1"
    requiredFeatures :=
      featureBitV1 .portableScalarF32 ||| featureBitV1 .avx2 ||| featureBitV1 .fma
    deterministicPriority := 30 },
  { variant := .externalOpenblas, stableId := "cpu.external.openblas.f32.v1"
    requiredFeatures := featureBitV1 .portableScalarF32, deterministicPriority := 10 },
  { variant := .nativePackedAvx2Fma, stableId := "cpu.native-packed.avx2-fma.f32.v1"
    requiredFeatures :=
      featureBitV1 .portableScalarF32 ||| featureBitV1 .avx2 ||| featureBitV1 .fma
    deterministicPriority := 20 }]

structure CpuCandidateDecisionV2 extends Candidate CpuGemmVariantV2 where
  requiredWorkspaceBytes : ℕ := 0
  requiredWorkspaceAlignment : ℕ := 1
  actualThreads : ℕ := 0

structure CpuGemmPlanV2 where
  status : CpuPlanStatus := .noLegalVariant
  problem : CpuGemmProblem
  capabilities : CpuCapabilitiesV1
  resources : CpuGemmImplementationResourcesV1
  request : CpuGemmRequestV2
  candidates : List CpuCandidateDecisionV2
  selectedVariant : CpuGemmVariantV2 := .reference
  selectedId : String := ""
  selectionReason : String := ""

def legacyRequest : CpuGemmVariantV2 → CpuGemmRequestV1
  | .reference => .forceReference
  | .tiled => .forceTiled
  | .compilerVectorized => .forceCompilerVectorized
  | .externalOpenblas | .nativePackedAvx2Fma => .forceReference

def requestMatchesV2 (request : CpuGemmRequestV2) (variant : CpuGemmVariantV2) : Bool :=
  match request with
  | .automatic => true
  | .forceReference => variant = .reference
  | .forceTiled => variant = .tiled
  | .forceCompilerVectorized => variant = .compilerVectorized
  | .forceExternalOpenblas => variant = .externalOpenblas
  | .forceNativePackedAvx2Fma => variant = .nativePackedAvx2Fma
  | .outside => false

def intMax : ℕ := 2 ^ 31 - 1

def extraLegalityReason (variant : CpuGemmVariantV2) (problem : CpuGemmProblem)
    (capabilities : CpuCapabilitiesV1) (resources : CpuGemmImplementationResourcesV1) :
    Option String :=
  if resources.requestedThreads = 0 then some "requested thread count must be positive"
  else
    match variant with
    | .reference | .tiled | .compilerVectorized => none
    | .externalOpenblas =>
      firstRefusal [
        (!resources.openblasLinked, "OpenBLAS CBLAS adapter is not linked"),
        (!resources.openblasConformanceEvaluated,
          "OpenBLAS conformance was not evaluated for this request"),
        (!resources.openblasConformant, "OpenBLAS conformance validation failed"),
        (!resources.openblasLocalThreadControl, "OpenBLAS local thread control is unavailable"),
        (resources.requestedThreads > intMax, "OpenBLAS thread count exceeds INT_MAX"),
        (resources.openblasMaximumThreads = 0,
          "OpenBLAS provider thread ceiling is unavailable"),
        (resources.requestedThreads > resources.openblasMaximumThreads,
          "OpenBLAS requested thread count exceeds provider maximum"),
        (problem.m > intMax || problem.n > intMax || problem.k > intMax,
          "OpenBLAS LP64 dimensions exceed INT_MAX")]
    | .nativePackedAvx2Fma =>
      firstRefusal [
        (!resources.nativePackedAvx2FmaCompiled,
          "native packed AVX2/FMA implementation is not compiled"),
        (!resources.nativePackedWorkspaceSizeValid,
          "native packed workspace requirement overflowed"),
        (resources.nativePackedWorkspaceAlignment < 32 ||
          resources.nativePackedWorkspaceAlignment &&&
            (resources.nativePackedWorkspaceAlignment - 1) ≠ 0,
          "native packed workspace alignment is invalid"),
        (!capabilities.detectionComplete || capabilities.architecture ≠ .x86_64 ||
          !hasFeature capabilities .avx2 || !hasFeature capabilities .fma ||
          capabilities.usableVectorBits < 256,
          "native packed candidate requires usable x86_64 AVX2/FMA"),
        (resources.requestedThreads ≠ 1, "native packed v1 is single-threaded")]

/-- Only asked for legal problems, whose dimensions are positive. -/
def estimatedCostV2 (variant : CpuGemmVariantV2) (problem : CpuGemmProblem) : ℕ :=
  let work := operationCount problem
  let packing := saturatingAdd (saturatingMultiply problem.m.toNat problem.k.toNat)
    (saturatingMultiply problem.k.toNat problem.n.toNat)
  match variant with
  | .reference => saturatingMultiply work 16
  | .tiled => saturatingAdd (saturatingMultiply work 7) 4096
  | .compilerVectorized => saturatingAdd (saturatingMultiply work 4) 16384
  | .externalOpenblas => if problem.m = 1 then uint64Max else saturatingAdd work 2000
  | .nativePackedAvx2Fma =>
    saturatingAdd (saturatingAdd (saturatingMultiply work 2) (saturatingMultiply packing 6)) 48000

/-- The texts of the plans of version 1 that make every candidate of this version illegal. -/
def invalidBase (base : CpuGemmPlanV1) : Bool :=
  base.status = .invalidProblem || base.status = .invalidCapabilities

/-- What version 1 says to a candidate that it knows too. -/
def legacyReason (buildAvailable : Bool) (problem : CpuGemmProblem)
    (capabilities : CpuCapabilitiesV1) (variant : CpuGemmVariantV2) : Option String :=
  let legacyIndex : Option ℕ :=
    match variant with
    | .reference => some 0
    | .tiled => some 1
    | .compilerVectorized => some 2
    | .externalOpenblas | .nativePackedAvx2Fma => none
  legacyIndex.bind fun index =>
    let legacy := planCpuGemmV1 buildAvailable problem capabilities (legacyRequest variant)
    if legacy.status ≠ .selected then
      some ((legacy.candidates[index]?.map (·.reason)).getD "")
    else none

def decideV2 (buildAvailable : Bool) (problem : CpuGemmProblem) (capabilities : CpuCapabilitiesV1)
    (resources : CpuGemmImplementationResourcesV1) (base : CpuGemmPlanV1)
    (record : CpuGemmVariantRecordV2) : CpuCandidateDecisionV2 :=
  let decision : CpuCandidateDecisionV2 :=
    { variant := record.variant
      stableId := record.stableId
      deterministicPriority := record.deterministicPriority }
  let decision :=
    if record.variant = .nativePackedAvx2Fma then
      { decision with
        requiredWorkspaceBytes := resources.nativePackedWorkspaceBytes
        requiredWorkspaceAlignment := resources.nativePackedWorkspaceAlignment }
    else decision
  let refusal :=
    firstRefusal [
      (invalidBase base, base.selectionReason),
      (capabilities.features &&& record.requiredFeatures ≠ record.requiredFeatures,
        "required CPU feature set is unavailable")] <|>
    legacyReason buildAvailable problem capabilities record.variant <|>
    extraLegalityReason record.variant problem capabilities resources
  match refusal with
  | some reason => { decision with reason }
  | none =>
    { decision with
      legal := true
      reason := "legal"
      actualThreads :=
        if record.variant = .externalOpenblas then resources.requestedThreads else 1
      estimatedCost := estimatedCostV2 record.variant problem }

/-- `plan_cpu_gemm_v2` over any registry. -/
def planOverV2 (registry : List CpuGemmVariantRecordV2) (buildAvailable : Bool)
    (problem : CpuGemmProblem) (capabilities : CpuCapabilitiesV1)
    (resources : CpuGemmImplementationResourcesV1) (request : CpuGemmRequestV2) :
    CpuGemmPlanV2 :=
  let base := planCpuGemmV1 buildAvailable problem capabilities .forceReference
  let pass := selectFrom registry (decideV2 buildAvailable problem capabilities resources base)
    (·.toCandidate) (requestMatchesV2 request) .reference
  let plan : CpuGemmPlanV2 :=
    { problem, capabilities, resources, request
      candidates := pass.candidates
      selectedVariant := pass.selection.selectedVariant
      selectedId := pass.selection.selectedId }
  if invalidBase base then
    { plan with status := base.status, selectionReason := base.selectionReason }
  else if !pass.selection.found then
    if request = .automatic then
      { plan with status := .noLegalVariant, selectionReason := "no legal CPU GEMM variant" }
    else
      { plan with
        status := .forcedVariantIllegal
        selectionReason := "requested CPU GEMM variant is illegal" }
  else
    { plan with
      status := .selected
      selectionReason :=
        if request = .automatic then
          "lowest deterministic calibrated cost; ties use priority then registry order"
        else "explicit legal variant request" }

def planCpuGemmV2 (buildAvailable : Bool) (problem : CpuGemmProblem)
    (capabilities : CpuCapabilitiesV1) (resources : CpuGemmImplementationResourcesV1)
    (request : CpuGemmRequestV2) : CpuGemmPlanV2 :=
  planOverV2 cpuGemmVariantRegistryV2 buildAvailable problem capabilities resources request

end Matcore.Planner
