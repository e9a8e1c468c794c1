import Matcore.Gemm.TaskPlan
import Matcore.Lib.Except

/-!
# The CPU planner, version 1

`cpu_planner.h`: the capability record, the ladders of checks that make a candidate legal, the
cost model, and the loop over the registry that keeps the best candidate. The loop is shared with
versions 2 and 3, which differ in how they decide on a candidate. A view of a text that may be
empty is an `Option`.
-/

namespace Matcore.Planner

open Gemm

def saturatingAdd (lhs rhs : ℕ) : ℕ := if rhs > uint64Max - lhs then uint64Max else lhs + rhs

/-- `outside` is a value that is none of the enumerators. -/
inductive CpuArchitectureV1 where
  | unknown
  | x86_64
  | aarch64
  | outside
  deriving DecidableEq

inductive CpuFeatureV1 where
  | portableScalarF32
  | avx2
  | fma

def featureBitV1 : CpuFeatureV1 → BitVec 64
  | .portableScalarF32 => BitVec.twoPow 64 0
  | .avx2 => BitVec.twoPow 64 1
  | .fma => BitVec.twoPow 64 2

structure CpuCapabilitiesV1 where
  version : ℕ := 1
  architecture : CpuArchitectureV1 := .unknown
  detectionComplete : Bool := false
  features : BitVec 64 := featureBitV1 .portableScalarF32
  usableVectorBits : ℕ := 0

def hasFeature (capabilities : CpuCapabilitiesV1) (feature : CpuFeatureV1) : Bool :=
  capabilities.features &&& featureBitV1 feature ≠ 0

def knownCpuFeatureBitsV1 : BitVec 64 :=
  featureBitV1 .portableScalarF32 ||| featureBitV1 .avx2 ||| featureBitV1 .fma

def capabilityRecordReason (capabilities : CpuCapabilitiesV1) : Option String :=
  firstRefusal [
    (capabilities.version ≠ 1, "CPU capability record version is unsupported"),
    (capabilities.architecture = .outside, "CPU capability record architecture is invalid"),
    (capabilities.features &&& ~~~knownCpuFeatureBitsV1 ≠ 0,
      "CPU capability record contains unknown feature bits"),
    (capabilities.detectionComplete && capabilities.architecture = .unknown,
      "complete CPU capability discovery requires a known architecture"),
    (hasFeature capabilities .avx2 && capabilities.architecture ≠ .x86_64,
      "AVX2 capability requires x86_64 architecture"),
    (capabilities.usableVectorBits ≠ 0 && capabilities.usableVectorBits ≠ 128 &&
      capabilities.usableVectorBits ≠ 256 && capabilities.usableVectorBits ≠ 512,
      "CPU capability vector width is outside the v1 domain"),
    (capabilities.usableVectorBits ≠ 0 &&
      (!hasFeature capabilities .avx2 || capabilities.architecture ≠ .x86_64),
      "usable vector width requires modeled x86_64 AVX2 capability")]

def commonLegalityReason (problem : CpuGemmProblem) : Option String :=
  firstRefusal [
    (problem.m ≤ 0 || problem.n ≤ 0 || problem.k ≤ 0, "M, N, and K must be positive"),
    (problem.elementType ≠ .f32, "variant supports only f32 elements"),
    (problem.accumulationType ≠ .f32, "variant supports only f32 accumulation"),
    (problem.layout ≠ .rowMajorContiguous, "variant requires row-major contiguous matrices"),
    (problem.minimumAlignmentBytes < 4, "variant requires float-aligned storage"),
    (problem.minimumAlignmentBytes &&& (problem.minimumAlignmentBytes - 1) ≠ 0,
      "minimum alignment must be a power of two")]

inductive CpuGemmVariantV1 where
  | reference
  | tiled
  | compilerVectorized
  deriving DecidableEq

/-- `outside` is a value that is none of the enumerators. -/
inductive CpuGemmRequestV1 where
  | automatic
  | forceReference
  | forceTiled
  | forceCompilerVectorized
  | outside
  deriving DecidableEq

structure CpuGemmVariantRecordV1 where
  variant : CpuGemmVariantV1
  stableId : String
  requiredFeatures : BitVec 64
  deterministicPriority : ℕ

def cpuGemmVariantRegistryV1 : List CpuGemmVariantRecordV1 := [
  { variant := .reference, stableId := "cpu.reference.f32.v1"
    requiredFeatures := featureBitV1 .portableScalarF32, deterministicPriority := 30 },
  { variant := .tiled, stableId := "cpu.tiled.f32.v1"
    requiredFeatures := featureBitV1 .portableScalarF32, deterministicPriority := 20 },
  { variant := .compilerVectorized, stableId := "cpu.compiler-vectorized.avx2-fma.f32.v1"
    requiredFeatures :=
      featureBitV1 .portableScalarF32 ||| featureBitV1 .avx2 ||| featureBitV1 .fma
    deterministicPriority := 10 }]

inductive CpuPlanStatus where
  | selected
  | noLegalVariant
  | forcedVariantIllegal
  | invalidProblem
  | invalidCapabilities
  deriving DecidableEq

/-- What the decisions of the three versions have in common. -/
structure Candidate (V : Type) where
  variant : V
  stableId : String := ""
  legal : Bool := false
  reason : String := ""
  estimatedCost : ℕ := uint64Max
  deterministicPriority : ℕ := 0

/-- The locals of the loop: the best candidate so far, and what of it goes into the plan. -/
structure Selection (V : Type) where
  found : Bool := false
  bestCost : ℕ := uint64Max
  bestPriority : ℕ := 2 ^ 16 - 1
  bestIndex : ℕ
  selectedVariant : V
  selectedId : String := ""

def Selection.consider {V : Type} (selection : Selection V) (index : ℕ) (decision : Candidate V) :
    Selection V :=
  if !selection.found || decision.estimatedCost < selection.bestCost ||
      (decision.estimatedCost = selection.bestCost &&
        (decision.deterministicPriority < selection.bestPriority ||
          (decision.deterministicPriority = selection.bestPriority &&
            index < selection.bestIndex))) then
    { found := true
      bestCost := decision.estimatedCost
      bestPriority := decision.deterministicPriority
      bestIndex := index
      selectedVariant := decision.variant
      selectedId := decision.stableId }
  else selection

/-- The array of the plan as far as it is filled, and the selection. -/
structure Pass (V D : Type) where
  candidates : List D := []
  selection : Selection V

/-- One iteration: the decision goes into the plan, and competes if it is legal and requested. -/
def Pass.visit {V D : Type} (core : D → Candidate V) (matchesRequest : V → Bool)
    (pass : Pass V D) (decision : D) : Pass V D :=
  { candidates := pass.candidates ++ [decision]
    selection :=
      if (core decision).legal && matchesRequest (core decision).variant then
        pass.selection.consider pass.candidates.length (core decision)
      else pass.selection }

/-- The loop over a registry. -/
def selectFrom {R V D : Type} (registry : List R) (decideOn : R → D) (core : D → Candidate V)
    (matchesRequest : V → Bool) (variant : V) : Pass V D :=
  registry.foldl (fun pass record => pass.visit core matchesRequest (decideOn record))
    { selection := { bestIndex := registry.length, selectedVariant := variant } }

abbrev CpuCandidateDecisionV1 := Candidate CpuGemmVariantV1

structure CpuGemmPlanV1 where
  status : CpuPlanStatus := .noLegalVariant
  problem : CpuGemmProblem
  capabilities : CpuCapabilitiesV1
  request : CpuGemmRequestV1
  candidates : List CpuCandidateDecisionV1
  selectedVariant : CpuGemmVariantV1 := .reference
  selectedId : String := ""
  selectionReason : String := ""

def requestMatchesV1 (request : CpuGemmRequestV1) (variant : CpuGemmVariantV1) : Bool :=
  match request with
  | .automatic => true
  | .forceReference => variant = .reference
  | .forceTiled => variant = .tiled
  | .forceCompilerVectorized => variant = .compilerVectorized
  | .outside => false

/-- `buildAvailable` is `cpu_compiler_vectorization_build_available_v1()`: false in instrumented
builds. -/
def capabilityLegalityReason (buildAvailable : Bool) (record : CpuGemmVariantRecordV1)
    (capabilities : CpuCapabilitiesV1) : Option String :=
  let vectorized := record.variant = .compilerVectorized
  firstRefusal [
    (capabilities.version ≠ 1, "CPU capability record version is unsupported"),
    (!hasFeature capabilities .portableScalarF32, "portable scalar f32 capability is required"),
    (vectorized && !capabilities.detectionComplete, "AVX2/FMA discovery is incomplete"),
    (vectorized && capabilities.features &&& record.requiredFeatures ≠ record.requiredFeatures,
      "AVX2 and FMA are required"),
    (vectorized && capabilities.architecture ≠ .x86_64,
      "compiler-vectorized candidate requires x86_64"),
    (vectorized && capabilities.usableVectorBits < 256,
      "compiler-vectorized candidate requires 256-bit vectors"),
    (vectorized && !buildAvailable,
      "compiler-vectorized implementation is unavailable in instrumented builds")]

/-- Only asked for legal problems, whose dimensions are positive. -/
def estimatedCostV1 (variant : CpuGemmVariantV1) (problem : CpuGemmProblem) : ℕ :=
  let work := operationCount problem
  match variant with
  | .reference => saturatingMultiply work 8
  | .tiled =>
    let tail := problem.m.toNat % 32 + problem.n.toNat % 32 + problem.k.toNat % 64
    saturatingAdd (saturatingAdd (saturatingMultiply work 4) 4096) (saturatingMultiply tail 64)
  | .compilerVectorized =>
    let cost := saturatingAdd (saturatingMultiply work 2) 16384
    let cost := if problem.minimumAlignmentBytes < 32 then saturatingAdd cost 24576 else cost
    saturatingAdd cost (saturatingMultiply (problem.n.toNat % 8) 128)

def decideV1 (buildAvailable : Bool) (problem : CpuGemmProblem) (capabilities : CpuCapabilitiesV1)
    (record : CpuGemmVariantRecordV1) : CpuCandidateDecisionV1 :=
  let decision : CpuCandidateDecisionV1 :=
    { variant := record.variant
      stableId := record.stableId
      deterministicPriority := record.deterministicPriority }
  match commonLegalityReason problem <|> capabilityRecordReason capabilities <|>
      capabilityLegalityReason buildAvailable record capabilities with
  | some reason => { decision with reason }
  | none =>
    { decision with
      legal := true
      reason := "legal"
      estimatedCost := estimatedCostV1 record.variant problem }

/-- `plan_cpu_gemm_v1` over any registry. -/
def planOverV1 (registry : List CpuGemmVariantRecordV1) (buildAvailable : Bool)
    (problem : CpuGemmProblem) (capabilities : CpuCapabilitiesV1) (request : CpuGemmRequestV1) :
    CpuGemmPlanV1 :=
  let pass := selectFrom registry (decideV1 buildAvailable problem capabilities) id
    (requestMatchesV1 request) .reference
  let plan : CpuGemmPlanV1 :=
    { problem, capabilities, request
      candidates := pass.candidates
      selectedVariant := pass.selection.selectedVariant
      selectedId := pass.selection.selectedId }
  match commonLegalityReason problem, capabilityRecordReason capabilities with
  | some reason, _ => { plan with status := .invalidProblem, selectionReason := reason }
  | none, some reason => { plan with status := .invalidCapabilities, selectionReason := reason }
  | none, none =>
    if !pass.selection.found then
      if request = .automatic then
        { plan with status := .noLegalVariant, selectionReason := "no legal CPU GEMM variant" }
      else
        { plan with
          status := .forcedVariantIllegal
          selectionReason := "requested CPU GEMM variant is illegal" }
    else
      { plan with
        status := .selected
        selectionReason :=
          if request = .automatic then
            "lowest deterministic cost; ties use priority then registry order"
          else "explicit legal variant request" }

def planCpuGemmV1 (buildAvailable : Bool) (problem : CpuGemmProblem)
    (capabilities : CpuCapabilitiesV1) (request : CpuGemmRequestV1) : CpuGemmPlanV1 :=
  planOverV1 cpuGemmVariantRegistryV1 buildAvailable problem capabilities request

end Matcore.Planner
