import Matcore.Lib.Mask
import Matcore.Proof.Selection
import Matcore.Proof.TaskPlan

/-!
# What a legal parallel plan promises

What the checks of the planner let pass is consistent, in terms of the counts and identifiers alone,
and its threads fit the machine.
-/

namespace Matcore.Planner

open Gemm Platform Mask
open Bool (not_eq_false' or_eq_false_iff not_eq_true and_eq_true)

/-- The first `count` identifiers are known, distinct and in order. -/
def Ascending (ids : List TopologyId) (count : ℕ) : Prop :=
  unknownTopologyId ∉ ids.take count ∧ (ids.take count).Pairwise (· < ·)

/-- A topology that is discovered completely and does not contradict itself. -/
structure KnownTopology (topology : CpuPlannerTopologyView) : Prop where
  version : topology.version = 1
  complete : topology.discoveryComplete = true
  logical : 0 < topology.logicalProcessors
  physical : 0 < topology.physicalCores
  available : 0 < topology.availableProcessors
  nodes : 0 < topology.numaNodes
  identified : topology.numaNodeIdsComplete = true
  reported : topology.numaNodes ≤ reportedNumaNodeLimit
  ids : Ascending topology.numaNodeIds.toList topology.numaNodes
  cores : topology.physicalCores ≤ topology.logicalProcessors
  usable : topology.availableProcessors ≤ topology.logicalProcessors

/-- A placement that is complete and fits the topology and its own policies. -/
structure ConsistentPlacement (topology : CpuPlannerTopologyView)
    (placement : CpuPlannerPlacementEvidence) : Prop where
  version : placement.version = 1
  complete : placement.evidenceComplete = true
  affinity : placement.affinity ≠ .outside
  numa : placement.numa ≠ .outside
  localCores : 0 < placement.localPhysicalCoreCapacity
  localThreads : placement.localPhysicalCoreCapacity ≤ placement.localLogicalProcessorCapacity
  logical : placement.localLogicalProcessorCapacity ≤ topology.logicalProcessors
  physical : placement.localPhysicalCoreCapacity ≤ topology.physicalCores
  chosen : 0 < placement.selectedNumaNodeCount
  nodes : placement.selectedNumaNodeCount ≤ topology.numaNodes
  reported : placement.selectedNumaNodeCount ≤ reportedNumaNodeLimit
  ids : Ascending placement.selectedNumaNodes.toList placement.selectedNumaNodeCount
  present : placement.selectedNumaNodes.toList.take placement.selectedNumaNodeCount ⊆
    topology.numaNodeIds.toList.take topology.numaNodes
  crosses : placement.crossesNumaNodes = true ↔ 1 < placement.selectedNumaNodeCount
  applied : placement.affinityApplied = placement.affinityRequested
  single : placement.numa = .singleNode → placement.selectedNumaNodeCount = 1
  bound : placement.numa = .singleNode → 1 < topology.numaNodes → placement.affinityApplied = true
  firstTouch : 1 < placement.selectedNumaNodeCount → placement.callerFirstTouchRequired = true

/-- A problem that the planner has kernels for. -/
structure LegalProblem (problem : CpuGemmProblem) : Prop where
  m : 0 < problem.m
  n : 0 < problem.n
  k : 0 < problem.k
  element : problem.elementType = .f32
  accumulation : problem.accumulationType = .f32
  layout : problem.layout = .rowMajorContiguous
  alignment : 4 ≤ problem.minimumAlignmentBytes
  power : problem.minimumAlignmentBytes &&& (problem.minimumAlignmentBytes - 1) = 0

/-- A capability record that does not contradict itself. -/
structure ConsistentRecord (capabilities : CpuCapabilitiesV1) : Prop where
  version : capabilities.version = 1
  architecture : capabilities.architecture ≠ .outside
  known : Covers knownCpuFeatureBitsV1 capabilities.features
  discovered : capabilities.detectionComplete = true → capabilities.architecture ≠ .unknown
  avx2 : hasFeature capabilities .avx2 = true → capabilities.architecture = .x86_64
  width : capabilities.usableVectorBits ∈ [0, 128, 256, 512]
  vector : capabilities.usableVectorBits ≠ 0 → hasFeature capabilities .avx2 = true

/-- The evidence about one of the two parallel implementations. -/
structure ParallelImplementation where
  compiled : Bool
  validated : Bool
  packedCompiled : Bool
  packedValidated : Bool
  sizeValid : Bool
  shared : ℕ
  perWorker : ℕ
  alignment : ℕ

def parallelImplementation (resources : CpuGemmImplementationResourcesV2) (avx512 : Bool) :
    ParallelImplementation :=
  if avx512 then
    { compiled := resources.nativeParallelAvx512FmaCompiled
      validated := resources.nativeParallelAvx512FmaRuntimeValidated
      packedCompiled := resources.nativePackedAvx512FmaCompiled
      packedValidated := resources.nativePackedAvx512FmaRuntimeValidated
      sizeValid := resources.nativeParallelAvx512WorkspaceSizeValid
      shared := resources.nativeParallelAvx512SharedWorkspaceBytes
      perWorker := resources.nativeParallelAvx512PerWorkerWorkspaceBytes
      alignment := resources.nativeParallelAvx512WorkspaceAlignment }
  else
    { compiled := resources.nativeParallelAvx2FmaCompiled
      validated := resources.nativeParallelAvx2FmaRuntimeValidated
      packedCompiled := resources.baseline.nativePackedAvx2FmaCompiled
      packedValidated := resources.nativePackedAvx2FmaRuntimeValidated
      sizeValid := resources.nativeParallelAvx2WorkspaceSizeValid
      shared := resources.nativeParallelAvx2SharedWorkspaceBytes
      perWorker := resources.nativeParallelAvx2PerWorkerWorkspaceBytes
      alignment := resources.nativeParallelAvx2WorkspaceAlignment }

/-- The vector state that the code of a parallel candidate needs. -/
def VectorState (input : PlannerInput) : Bool → Prop
  | true => input.resources.avx512fHardware = true ∧ input.resources.avx512fOsEnabled = true ∧
      input.resources.avx512fCompilerSupported = true
  | false => hasFeature input.capabilities .avx2 = true ∧
      256 ≤ input.capabilities.usableVectorBits

/-- Everything that a parallel candidate has to show. -/
structure ParallelEvidence (input : PlannerInput) (avx512 : Bool) : Prop where
  problem : LegalProblem input.problem
  record : ConsistentRecord input.capabilities
  policy : input.policy.version = 1 ∧ 0 < input.policy.requestedThreads
  topology : KnownTopology input.topology
  placement : ConsistentPlacement input.topology input.placement
  context : input.resources.executionContextAvailable = true
  workers : input.resources.executionContextWorkerCapacity ≠ 0
  unnested : input.policy.externalProviderParallelismActive = false
  discovered : input.capabilities.detectionComplete = true
  architecture : input.capabilities.architecture = .x86_64
  fma : hasFeature input.capabilities .fma = true
  vector : VectorState input avx512
  compiled : (parallelImplementation input.resources avx512).compiled = true
  validated : (parallelImplementation input.resources avx512).validated = true
  packedCompiled : (parallelImplementation input.resources avx512).packedCompiled = true
  packedValidated : (parallelImplementation input.resources avx512).packedValidated = true
  sizeValid : (parallelImplementation input.resources avx512).sizeValid = true
  shared : (parallelImplementation input.resources avx512).shared ≠ 0
  perWorker : (parallelImplementation input.resources avx512).perWorker ≠ 0
  alignment : 32 ≤ (parallelImplementation input.resources avx512).alignment
  power : (parallelImplementation input.resources avx512).alignment &&&
    ((parallelImplementation input.resources avx512).alignment - 1) = 0
  total : (parallelImplementation input.resources avx512).shared +
    (parallelImplementation input.resources avx512).perWorker *
      (parallelTasks input).actualThreads ≤ uint64Max
  threads : 2 ≤ (parallelTasks input).actualThreads
  work : parallelMinimumWorkPerThread ≤
    divideRoundUp (operationCount input.problem) (parallelTasks input).actualThreads

section Evidence

variable {problem : CpuGemmProblem} {capabilities : CpuCapabilitiesV1}
  {topology : CpuPlannerTopologyView} {placement : CpuPlannerPlacementEvidence}

theorem ascending_iff {ids : Vector TopologyId 16} {count : ℕ} (hcount : count ≤ 16) :
    (∀ index < count, badNodeId ids index = false) ↔ Ascending ids.toList count := by
  have hlength : (ids.toList.take count).length = count := by simp [hcount]
  have hget : ∀ index (h : index < (ids.toList.take count).length),
      ids.toList.getD index 0 = (ids.toList.take count)[index] := by
    intro index h
    rw [hlength] at h
    rw [List.getD_eq_getElem _ _ (by simp; omega), List.getElem_take]
  have hbad : ∀ index, badNodeId ids index = false ↔
      ids.toList.getD index 0 ≠ unknownTopologyId ∧
        (index ≠ 0 → ids.toList.getD (index - 1) 0 < ids.toList.getD index 0) := by
    intro index
    simp [badNodeId, not_le]
  unfold Ascending
  rw [← List.isChain_iff_pairwise, List.isChain_iff_getElem, List.mem_iff_getElem]
  constructor
  · intro h
    constructor
    · rintro ⟨index, hindex, heq⟩
      exact ((hbad index).1 (h index (hlength ▸ hindex))).1 ((hget index hindex).trans heq)
    · intro index hindex
      have hnext := ((hbad (index + 1)).1 (h (index + 1) (hlength ▸ hindex))).2 (by omega)
      rwa [Nat.add_sub_cancel, hget, hget] at hnext
  · rintro ⟨hknown, hsorted⟩ index hindex
    rw [hbad]
    constructor
    · intro heq
      exact hknown ⟨index, hlength.symm ▸ hindex, (hget _ _).symm.trans heq⟩
    · intro hpos
      obtain ⟨before, rfl⟩ := Nat.exists_eq_succ_of_ne_zero hpos
      have hnext := hsorted before (hlength.symm ▸ hindex)
      rwa [← hget, ← hget] at hnext

theorem topologyReason_eq_none : topologyReason topology = none ↔ KnownTopology topology := by
  unfold topologyReason
  simp only [firstRefusal_cons, firstRefusal_nil, decide_eq_false_iff_not, not_not,
    not_eq_false', or_eq_false_iff, List.any_eq_false, List.mem_range, not_eq_true,
    ← ne_eq, ← Nat.pos_iff_ne_zero, Nat.not_lt, gt_iff_lt, and_true, and_assoc]
  constructor
  · rintro ⟨h1, h2, h3, h4, h5, h6, h7, h8, h9, h10, h11⟩
    exact ⟨h1, h2, h3, h4, h5, h6, h7, h8, (ascending_iff h8).1 h9, h10, h11⟩
  · intro h
    exact ⟨h.version, h.complete, h.logical, h.physical, h.available, h.nodes, h.identified,
      h.reported, (ascending_iff h.reported).2 h.ids, h.cores, h.usable⟩

/-- The loop over the selected nodes. -/
theorem selectedNodes_eq_none (hcount : placement.selectedNumaNodeCount ≤ 16) :
    firstRefusal ((List.range placement.selectedNumaNodeCount).flatMap
        (selectedNodeChecks topology placement)) = none ↔
      Ascending placement.selectedNumaNodes.toList placement.selectedNumaNodeCount ∧
        placement.selectedNumaNodes.toList.take placement.selectedNumaNodeCount ⊆
          topology.numaNodeIds.toList.take topology.numaNodes := by
  have hall : ∀ checks : List (Bool × String),
      firstRefusal checks = none ↔ ∀ check ∈ checks, check.1 = false := by
    intro checks
    induction checks with
    | nil => simp
    | cons check rest ih => rw [firstRefusal_cons, ih, List.forall_mem_cons]
  have hlength : (placement.selectedNumaNodes.toList.take placement.selectedNumaNodeCount).length =
      placement.selectedNumaNodeCount := by simp [hcount]
  rw [hall, ← ascending_iff hcount]
  simp only [List.mem_flatMap, List.mem_range, selectedNodeChecks, List.mem_cons,
    List.not_mem_nil, or_false]
  constructor
  · intro h
    refine ⟨fun index hindex => h _ ⟨index, hindex, .inl rfl⟩, fun id hid => ?_⟩
    obtain ⟨index, hindex, rfl⟩ := List.mem_iff_getElem.1 hid
    have hfound := h _ ⟨index, hlength ▸ hindex, .inr rfl⟩
    rw [List.getD_eq_getElem _ _ (by rw [hlength] at hindex; simp; omega)] at hfound
    simpa using hfound
  · rintro ⟨hknown, hpresent⟩ check ⟨index, hindex, rfl | rfl⟩
    · exact hknown index hindex
    · have hid := hpresent (List.getElem_mem (hlength.symm ▸ hindex))
      rw [List.getD_eq_getElem _ _ (by simp; omega)]
      simpa using hid

theorem placementReason_eq_none :
    placementReason topology placement = none ↔ ConsistentPlacement topology placement := by
  unfold placementReason
  simp only [Option.orElse_eq_none, firstRefusal_cons, firstRefusal_nil, decide_eq_false_iff_not,
    not_not, not_eq_false', or_eq_false_iff, Bool.and_eq_false_iff, ← ne_eq,
    ← Nat.pos_iff_ne_zero, Nat.not_lt, gt_iff_lt, and_true, and_assoc]
  constructor
  · rintro ⟨h1, h2, h3, h4, h5, h6, h7, h8, h9, h10, h11, h12, hnodes, h13, h14, h15, h16, h17, h18⟩
    obtain ⟨hids, hpresent⟩ := (selectedNodes_eq_none h12).1 hnodes
    have hcrosses : placement.crossesNumaNodes = true ↔ 1 < placement.selectedNumaNodeCount := by
      rw [h13, decide_eq_true_eq]
    refine ⟨h1, h2, h3, h4, h6, h7, h8, h9, h10, h11, h12, hids, hpresent, hcrosses, ?_, ?_, ?_, ?_⟩
    · revert h14 h15
      cases placement.affinityApplied <;> cases placement.affinityRequested <;> simp
    · intro hsingle
      have hnot := h16.resolve_left (not_not.2 hsingle)
      rw [← not_eq_true, hcrosses] at hnot
      omega
    · intro hsingle hmany
      exact (or_assoc.1 h17).resolve_left (not_not.2 hsingle) |>.resolve_left (not_le.2 hmany)
    · intro hmany
      exact h18.resolve_left (by rw [hcrosses.2 hmany]; exact Bool.noConfusion)
  · intro h
    refine ⟨h.version, h.complete, h.affinity, h.numa, h.localCores.trans_le h.localThreads,
      h.localCores, h.localThreads, h.logical, h.physical, h.chosen, h.nodes, h.reported,
      (selectedNodes_eq_none h.reported).2 ⟨h.ids, h.present⟩, ?_, ?_, ?_, ?_, ?_, ?_⟩
    · exact Bool.eq_iff_iff.2 (h.crosses.trans decide_eq_true_iff.symm)
    · rw [h.applied]
      cases placement.affinityRequested <;> simp
    · rw [h.applied]
      cases placement.affinityRequested <;> simp
    · by_cases hsingle : placement.numa = .singleNode
      · right
        rw [← not_eq_true, h.crosses, h.single hsingle]
        omega
      · exact .inl hsingle
    · by_cases hsingle : placement.numa = .singleNode
      · by_cases hmany : 1 < topology.numaNodes
        · exact .inr (h.bound hsingle hmany)
        · exact .inl (.inr (Nat.not_lt.1 hmany))
      · exact .inl (.inl hsingle)
    · by_cases hmany : 1 < placement.selectedNumaNodeCount
      · exact .inr (h.firstTouch hmany)
      · left
        rwa [← not_eq_true, h.crosses]

theorem commonLegalityReason_eq_none :
    commonLegalityReason problem = none ↔ LegalProblem problem := by
  unfold commonLegalityReason
  simp only [firstRefusal_cons, firstRefusal_nil, decide_eq_false_iff_not, not_not,
    or_eq_false_iff, not_le, not_lt, and_true, and_assoc]
  constructor
  · rintro ⟨h1, h2, h3, h4, h5, h6, h7, h8⟩
    exact ⟨h1, h2, h3, h4, h5, h6, h7, h8⟩
  · intro h
    exact ⟨h.m, h.n, h.k, h.element, h.accumulation, h.layout, h.alignment, h.power⟩

/-- No bit of `mask` is outside `known`. -/
theorem and_not_eq_zero {known mask : BitVec 64} : mask &&& ~~~known = 0 ↔ Covers known mask := by
  rw [covers_iff]
  constructor
  · intro h i hi
    have hbit := congrArg (BitVec.getLsbD · i) h
    have hlt := BitVec.lt_of_getLsbD hi
    simpa [hi, hlt] using hbit
  · intro h
    refine BitVec.eq_of_getLsbD_eq fun i hi => ?_
    have hbit := h i
    cases hmask : mask.getLsbD i <;> simp_all

theorem capabilityRecordReason_eq_none :
    capabilityRecordReason capabilities = none ↔ ConsistentRecord capabilities := by
  unfold capabilityRecordReason
  simp only [firstRefusal_cons, firstRefusal_nil, decide_eq_false_iff_not, not_not,
    Bool.and_eq_false_iff, or_eq_false_iff, not_eq_false', and_not_eq_zero, and_true]
  constructor
  · rintro ⟨h1, h2, h3, h4, h5, h6, h7⟩
    refine ⟨h1, h2, h3, ?_, ?_, by simpa [or_assoc] using h6, ?_⟩
    · exact fun h => h4.resolve_left (by rw [h]; exact Bool.noConfusion)
    · exact fun h => h5.resolve_left (by rw [h]; exact Bool.noConfusion)
    · exact fun h => (h7.resolve_left h).1
  · intro h
    refine ⟨h.version, h.architecture, h.known, ?_, ?_, by simpa [or_assoc] using h.width, ?_⟩
    · cases hcomplete : capabilities.detectionComplete
      · exact .inl rfl
      · exact .inr (h.discovered hcomplete)
    · cases hvector : hasFeature capabilities .avx2
      · exact .inl rfl
      · exact .inr (h.avx2 hvector)
    · by_cases hzero : capabilities.usableVectorBits = 0
      · exact .inl hzero
      · exact .inr ⟨h.vector hzero, h.avx2 (h.vector hzero)⟩

theorem invalidInput_eq_none {buildAvailable : Bool} {input : PlannerInput} :
    invalidInput buildAvailable input = none ↔
      LegalProblem input.problem ∧ ConsistentRecord input.capabilities ∧
        input.policy.version = 1 ∧ 0 < input.policy.requestedThreads := by
  have hpolicy : threadPolicyReason input.policy = none ↔
      input.policy.version = 1 ∧ 0 < input.policy.requestedThreads := by
    simp [threadPolicyReason, Nat.pos_iff_ne_zero]
  rw [← commonLegalityReason_eq_none, ← capabilityRecordReason_eq_none, ← hpolicy]
  unfold invalidInput invalidBase planCpuGemmV1 planOverV1
  cases commonLegalityReason input.problem with
  | some reason => simp
  | none =>
    cases capabilityRecordReason input.capabilities with
    | some reason => simp
    | none =>
      dsimp only
      split
      · simp
      · simp

end Evidence

/-- Overflow is the only reason for no total. -/
theorem totalParallelWorkspace_ne_none {shared perWorker threads : ℕ} (hperWorker : perWorker ≠ 0)
    (hthreads : threads ≠ 0) :
    totalParallelWorkspace shared perWorker threads ≠ none ↔
      shared + perWorker * threads ≤ uint64Max := by
  have hpos : 0 < perWorker * threads :=
    Nat.mul_pos (Nat.pos_of_ne_zero hperWorker) (Nat.pos_of_ne_zero hthreads)
  unfold totalParallelWorkspace
  split
  · rename_i h
    have hlt : uint64Max < perWorker * threads :=
      Nat.mul_comm threads perWorker ▸ (Nat.div_lt_iff_lt_mul (Nat.pos_of_ne_zero h.1)).1 h.2
    exact iff_of_false (fun hne => hne rfl) (by omega)
  · rename_i h
    split
    · exact iff_of_false (fun hne => hne rfl) (by omega)
    · exact iff_of_true (Option.some_ne_none _) (by omega)

def parallelVariant (avx512 : Bool) : CpuGemmVariantV3 :=
  if avx512 then .nativeParallelAvx512Fma else .nativeParallelAvx2Fma

/-- What the planner starts a parallel candidate from. -/
def parallelStart (input : PlannerInput) (record : CpuGemmVariantRecordV3) :
    CpuCandidateDecisionV3 :=
  populateResourceMetadata input.resources (populateRequirementMetadata
    { variant := record.variant
      stableId := record.stableId
      deterministicPriority := record.deterministicPriority })

section Ladder

variable {buildAvailable : Bool} {input : PlannerInput} {avx512 : Bool}
  {record : CpuGemmVariantRecordV3}

theorem decideV3_parallel (hvariant : record.variant = parallelVariant avx512)
    (haccepted : invalidInput buildAvailable input = none) :
    decideV3 buildAvailable input record =
      decideParallel input avx512 (parallelStart input record) := by
  unfold decideV3
  rw [haccepted, hvariant]
  cases avx512 <;> simp [parallelStart, parallelVariant, hvariant]

theorem start_workspace (hvariant : record.variant = parallelVariant avx512) :
    let start := parallelStart input record
    let implementation := parallelImplementation input.resources avx512
    start.requiredWorkspaceBytes = 0 ∧
      (implementation.sizeValid = true →
        start.sharedWorkspaceBytes = implementation.shared ∧
          start.perWorkerWorkspaceBytes = implementation.perWorker ∧
          start.requiredWorkspaceAlignment = implementation.alignment) := by
  cases avx512 <;>
    simp only [parallelStart, hvariant, parallelVariant, populateResourceMetadata,
      populateRequirementMetadata, parallelImplementation, CpuCandidateDecisionV3.withSlices,
      if_true, Bool.false_eq_true, if_false] <;>
    split <;> simp_all

theorem totalParallelWorkspace_ne_zero {shared perWorker threads total : ℕ} (hshared : shared ≠ 0)
    (h : totalParallelWorkspace shared perWorker threads = some total) : total ≠ 0 := by
  unfold totalParallelWorkspace at h
  split at h
  · cases h
  · split at h
    · cases h
    · rw [← Option.some.inj h]
      omega

section

variable (hvariant : record.variant = parallelVariant avx512)

include hvariant

section

variable (hvalid : (parallelImplementation input.resources avx512).sizeValid = true)

include hvalid

theorem described_workspace :
    let decision := describeParallel input (parallelStart input record)
    let implementation := parallelImplementation input.resources avx512
    decision.sharedWorkspaceBytes = implementation.shared ∧
      decision.perWorkerWorkspaceBytes = implementation.perWorker ∧
      decision.requiredWorkspaceAlignment = implementation.alignment ∧
      (implementation.shared ≠ 0 → implementation.perWorker ≠ 0 →
        (parallelTasks input).actualThreads ≠ 0 →
        decision.requiredWorkspaceBytes = (totalParallelWorkspace implementation.shared
          implementation.perWorker (parallelTasks input).actualThreads).getD 0) := by
  obtain ⟨hrequired, hworkspace⟩ := @start_workspace input avx512 record hvariant
  obtain ⟨hshared, hperWorker, halignment⟩ := hworkspace hvalid
  refine ⟨hshared, hperWorker, halignment, fun h1 h2 h3 => ?_⟩
  unfold describeParallel
  dsimp only
  rw [hshared, hperWorker, hrequired, if_pos ⟨h1, h2, h3⟩]

theorem workspace_iff (hthreads : 2 ≤ (parallelTasks input).actualThreads) :
    let decision := describeParallel input (parallelStart input record)
    let implementation := parallelImplementation input.resources avx512
    (¬ decision.sharedWorkspaceBytes = 0 ∧ ¬ decision.perWorkerWorkspaceBytes = 0 ∧
        ¬ decision.requiredWorkspaceAlignment < 32 ∧
        ¬ decision.requiredWorkspaceAlignment &&& (decision.requiredWorkspaceAlignment - 1) ≠ 0 ∧
        ¬ decision.requiredWorkspaceBytes = 0) ↔
      implementation.shared ≠ 0 ∧ implementation.perWorker ≠ 0 ∧ 32 ≤ implementation.alignment ∧
        implementation.alignment &&& (implementation.alignment - 1) = 0 ∧
        implementation.shared + implementation.perWorker * (parallelTasks input).actualThreads ≤
          uint64Max := by
  obtain ⟨hshared, hperWorker, halignment, hrequired⟩ := described_workspace hvariant hvalid
  dsimp only at *
  rw [hshared, hperWorker, halignment, Nat.not_lt, not_not]
  refine and_congr_right fun h1 => and_congr_right fun h2 => and_congr_right fun _ =>
    and_congr_right fun _ => ?_
  rw [hrequired h1 h2 (by omega), ← totalParallelWorkspace_ne_none h2 (by omega)]
  cases htotal : totalParallelWorkspace (parallelImplementation input.resources avx512).shared
      (parallelImplementation input.resources avx512).perWorker
      (parallelTasks input).actualThreads with
  | none => simp
  | some total => simp [totalParallelWorkspace_ne_zero h1 htotal]

end

omit hvariant in
theorem accepted_of_evidence (h : ParallelEvidence input avx512) :
    invalidInput buildAvailable input = none :=
  invalidInput_eq_none.2 ⟨h.problem, h.record, h.policy⟩

theorem parallelReason_eq_none (haccepted : invalidInput buildAvailable input = none) :
    parallelReason input avx512 (describeParallel input (parallelStart input record)) = none ↔
      ParallelEvidence input avx512 := by
  obtain ⟨hproblem, hrecord, hpolicy⟩ := invalidInput_eq_none.1 haccepted
  unfold parallelReason placementError
  rw [Option.orElse_eq_none, Option.orElse_eq_none, topologyReason_eq_none, placementReason_eq_none]
  cases avx512 with
  | false =>
    simp only [firstRefusal_cons, firstRefusal_nil, Bool.not_false,
      Bool.true_and, Bool.false_and, Bool.or_false, or_eq_false_iff, not_eq_false',
      decide_eq_false_iff_not, and_assoc, true_and, and_true]
    constructor
    · rintro ⟨h1, h2, h3, h4, h5, h6, h7, h8, h9, h10, h11, h12, h13, h14, h15, h16, h17, hlast⟩
      obtain ⟨h18, h19, h20, h21, h22⟩ :=
        (workspace_iff hvariant h9 (Nat.not_lt.1 h16)).1 hlast
      exact ⟨hproblem, hrecord, hpolicy, h1, h2, h3, h4, h5, h10, not_not.1 h11, h13,
        ⟨h12, Nat.not_lt.1 h14⟩, h6,
        h7, h8, h15, h9, h18, h19, h20, h21, h22, Nat.not_lt.1 h16, Nat.not_lt.1 h17⟩
    · intro h
      exact ⟨h.topology, h.placement, h.context, h.workers, h.unnested, h.compiled, h.validated,
        h.packedCompiled, h.sizeValid, h.discovered, not_not.2 h.architecture, h.vector.1, h.fma,
        Nat.not_lt.2 h.vector.2, h.packedValidated, Nat.not_lt.2 h.threads, Nat.not_lt.2 h.work,
        (workspace_iff hvariant h.sizeValid h.threads).2
          ⟨h.shared, h.perWorker, h.alignment, h.power, h.total⟩⟩
  | true =>
    simp only [firstRefusal_cons, firstRefusal_nil, Bool.not_true,
      Bool.true_and, Bool.false_and, Bool.false_or, or_eq_false_iff, not_eq_false',
      decide_eq_false_iff_not, and_assoc, true_and, and_true]
    constructor
    · rintro ⟨h1, h2, h3, h4, h5, h6, h7, h8, h9, h10, h11, h12, h13, h14, h15, h16, h17, h18,
        hlast⟩
      obtain ⟨h19, h20, h21, h22, h23⟩ :=
        (workspace_iff hvariant h9 (Nat.not_lt.1 h17)).1 hlast
      exact ⟨hproblem, hrecord, hpolicy, h1, h2, h3, h4, h5, h11, not_not.1 h12, h16,
        ⟨h10, h13, h14⟩, h6, h7, h8,
        h15, h9, h19, h20, h21, h22, h23, Nat.not_lt.1 h17, Nat.not_lt.1 h18⟩
    · intro h
      exact ⟨h.topology, h.placement, h.context, h.workers, h.unnested, h.compiled, h.validated,
        h.packedCompiled, h.sizeValid, h.vector.1, h.discovered, not_not.2 h.architecture,
        h.vector.2.1, h.vector.2.2, h.packedValidated, h.fma, Nat.not_lt.2 h.threads,
        Nat.not_lt.2 h.work, (workspace_iff hvariant h.sizeValid h.threads).2
          ⟨h.shared, h.perWorker, h.alignment, h.power, h.total⟩⟩

/-- **The ladder** passes exactly the candidates with all the evidence. -/
theorem parallel_legal_iff :
    (decideV3 buildAvailable input record).legal = true ↔
      ParallelEvidence input avx512 := by
  cases haccepted : invalidInput buildAvailable input with
  | some refusal =>
    refine iff_of_false ?_ fun h => ?_
    · rw [decideV3_illegal record haccepted]
      exact Bool.false_ne_true
    · rw [accepted_of_evidence h] at haccepted
      cases haccepted
  | none =>
    rw [decideV3_parallel hvariant haccepted, ← parallelReason_eq_none hvariant haccepted]
    unfold decideParallel
    dsimp only
    have hillegal : (describeParallel input (parallelStart input record)).legal = false :=
      legal_metadata _ _
    cases parallelReason input avx512 (describeParallel input (parallelStart input record)) with
    | some reason => simp [hillegal]
    | none => simp

end

end Ladder

section Variants

variable {buildAvailable : Bool} {input : PlannerInput} {record : CpuGemmVariantRecordV3}

theorem variant_metadata (resources : CpuGemmImplementationResourcesV2)
    (decision : CpuCandidateDecisionV3) :
    (populateResourceMetadata resources (populateRequirementMetadata decision)).variant =
      decision.variant := by
  obtain ⟨_, _, _, _, _, heq⟩ :=
    populateResourceMetadata_eq resources (populateRequirementMetadata decision)
  rw [heq]
  rfl

theorem decideBaseline_variant (decision : CpuCandidateDecisionV3) :
    (decideBaseline buildAvailable input decision).variant = decision.variant := by
  have hbound : ∀ d, (rejectBoundProvider input.policy d).variant = d.variant := by
    intro d
    unfold rejectBoundProvider
    split <;> rfl
  have hvalid : ∀ d, (requireValidation input.resources d).variant = d.variant := by
    intro d
    unfold requireValidation
    dsimp only
    split <;> rfl
  have hcalibrate : ∀ d, (calibrateBoundPacked input d).variant = d.variant := by
    intro d
    unfold calibrateBoundPacked
    split <;> rfl
  have hprice : ∀ d, (priceProvider input.problem d).variant = d.variant := by
    intro d
    unfold priceProvider
    split <;> rfl
  unfold decideBaseline
  rw [hprice, hcalibrate, hvalid, hbound]
  rfl

theorem decideV3_variant : (decideV3 buildAvailable input record).variant = record.variant := by
  have hstart := variant_metadata input.resources
    { variant := record.variant
      stableId := record.stableId
      deterministicPriority := record.deterministicPriority }
  unfold decideV3
  cases invalidInput buildAvailable input with
  | some refusal => exact hstart
  | none =>
    dsimp only
    split
    iterate 5 rw [decideBaseline_variant, hstart]
    · unfold decidePackedAvx512
      cases packedAvx512Reason input <;> exact hstart
    · unfold decideParallel describeParallel
      dsimp only
      split <;> exact hstart
    · unfold decideParallel describeParallel
      dsimp only
      split <;> exact hstart

end Variants

/-- The threads of a decision fit the machine of `host`. -/
structure FitsMachine (host : HostInput) (decision : CpuCandidateDecisionV3) : Prop where
  two : 2 ≤ decision.actualThreads
  requested : decision.actualThreads ≤ host.policy.requestedThreads
  configured : host.policy.maximumThreads ≠ 0 →
    decision.actualThreads ≤ host.policy.maximumThreads
  workers : decision.actualThreads ≤ host.resources.executionContextWorkerCapacity
  available : decision.actualThreads ≤
    if host.availableProcessorsOverride = 0 then logicalCpuCount host.topology
    else host.availableProcessorsOverride
  processors : decision.actualThreads ≤
    if host.policy.allowSmt then logicalCpuCount host.topology
    else physicalCoreCount host.topology
  node : host.placement.numa = .singleNode →
    decision.actualThreads ≤ localThreadCapacity host.policy host.placement

/-- The features that a decision requires are there in every domain that it requires them of. -/
structure FeaturesPresent (capabilities : CpuCapabilities) (decision : CpuCandidateDecisionV3) :
    Prop where
  hardware : Covers capabilities.hardware.available decision.requiredHardwareFeatures
  os : Covers capabilities.osEnabled.available decision.requiredOsFeatures
  compiler : Covers capabilities.compiler.available decision.requiredCompilerFeatures
  implementation :
    Covers capabilities.implementation.available decision.requiredImplementationFeatures

section Machine

variable {buildAvailable : Bool} {input : PlannerInput} {avx512 : Bool}
  {record : CpuGemmVariantRecordV3}

theorem actualThreads_le (problem : CpuGemmProblem) (threads : ℕ) :
    (planCpuParallelTasks problem threads).actualThreads ≤ threads := by
  unfold planCpuParallelTasks
  split
  · exact Nat.zero_le _
  · dsimp only
    split
    · exact Nat.zero_le _
    · exact Nat.le_trans (Nat.mod_le _ _) (Nat.min_le_left _ _)

/-- The ceiling is below every limit of the policy, the context and the machine. -/
theorem ceiling_le (topology : CpuPlannerTopologyView) (policy : CpuThreadPolicy)
    (resources : CpuGemmImplementationResourcesV2) (placement : CpuPlannerPlacementEvidence) :
    let ceiling := policyThreadCeiling topology policy resources placement
    ceiling ≤ policy.requestedThreads ∧
      (policy.maximumThreads ≠ 0 → ceiling ≤ policy.maximumThreads) ∧
      ceiling ≤ resources.executionContextWorkerCapacity ∧
      ceiling ≤ topology.availableProcessors ∧
      ceiling ≤ (if policy.allowSmt then topology.logicalProcessors
        else topology.physicalCores) ∧
      (placement.evidenceComplete = true → placement.numa = .singleNode →
        ceiling ≤ localThreadCapacity policy placement) := by
  unfold policyThreadCeiling
  dsimp only
  generalize hrequested : (if policy.maximumThreads ≠ 0 then
    min policy.requestedThreads policy.maximumThreads else policy.requestedThreads) = requested
  generalize (if policy.allowSmt = true then topology.logicalProcessors
    else topology.physicalCores) = processors
  have hpolicy : requested ≤ policy.requestedThreads ∧
      (policy.maximumThreads ≠ 0 → requested ≤ policy.maximumThreads) := by
    rw [← hrequested]
    split
    · exact ⟨Nat.min_le_left _ _, fun _ => Nat.min_le_right _ _⟩
    · exact ⟨Nat.le_refl _, fun h => absurd h ‹_›⟩
  generalize hmachine : min (min (min requested resources.executionContextWorkerCapacity)
    topology.availableProcessors) processors = machine
  have hmins : machine ≤ requested ∧ machine ≤ resources.executionContextWorkerCapacity ∧
      machine ≤ topology.availableProcessors ∧ machine ≤ processors := by omega
  have hlimits : ∀ ceiling ≤ machine, ceiling ≤ policy.requestedThreads ∧
      (policy.maximumThreads ≠ 0 → ceiling ≤ policy.maximumThreads) ∧
      ceiling ≤ resources.executionContextWorkerCapacity ∧
      ceiling ≤ topology.availableProcessors ∧ ceiling ≤ processors :=
    fun ceiling h => ⟨(h.trans hmins.1).trans hpolicy.1,
      fun hmaximum => (h.trans hmins.1).trans (hpolicy.2 hmaximum), h.trans hmins.2.1,
      h.trans hmins.2.2.1, h.trans hmins.2.2.2⟩
  split
  · obtain ⟨h1, h2, h3, h4, h5⟩ := hlimits _ (Nat.min_le_left machine _)
    exact ⟨h1, h2, h3, h4, h5, fun _ _ => Nat.min_le_right _ _⟩
  · rename_i hnode
    obtain ⟨h1, h2, h3, h4, h5⟩ := hlimits machine (Nat.le_refl _)
    refine ⟨h1, h2, h3, h4, h5, fun hcomplete hsingle => absurd ?_ hnode⟩
    rw [hcomplete, hsingle]
    rfl

theorem legal_parallel (hvariant : record.variant = parallelVariant avx512)
    (h : ParallelEvidence input avx512) :
    let decision := decideV3 buildAvailable input record
    decision.actualThreads = (parallelTasks input).actualThreads ∧
      decision.requiredHardwareFeatures = requiredFeatures record.variant ∧
      decision.requiredOsFeatures = requiredFeatures record.variant ∧
      decision.requiredCompilerFeatures = requiredFeatures record.variant ∧
      decision.requiredImplementationFeatures = requiredFeatures record.variant := by
  have hmetadata : ∀ decision : CpuCandidateDecisionV3,
      let start := populateResourceMetadata input.resources (populateRequirementMetadata decision)
      start.requiredHardwareFeatures = requiredFeatures decision.variant ∧
        start.requiredOsFeatures = requiredFeatures decision.variant ∧
        start.requiredCompilerFeatures = requiredFeatures decision.variant ∧
        start.requiredImplementationFeatures = requiredFeatures decision.variant := by
    intro decision
    obtain ⟨_, _, _, _, _, heq⟩ :=
      populateResourceMetadata_eq input.resources (populateRequirementMetadata decision)
    rw [heq]
    exact ⟨rfl, rfl, rfl, rfl⟩
  have haccepted := @accepted_of_evidence buildAvailable _ _ h
  have hreason := (parallelReason_eq_none hvariant haccepted).2 h
  rw [decideV3_parallel hvariant haccepted]
  unfold decideParallel
  dsimp only
  rw [hreason]
  exact ⟨rfl, hmetadata _⟩

end Machine

section Host

variable {buildAvailable : Bool} {host : HostInput} {avx512 : Bool}

variable {decision : CpuCandidateDecisionV3}

theorem evidence_fits (h : ParallelEvidence host.projected avx512)
    (hthreads : decision.actualThreads = (parallelTasks host.projected).actualThreads) :
    FitsMachine host decision := by
  have hcomplete : host.placement.evidenceComplete = true := h.placement.complete
  have hceiling : threadCeiling host.projected =
      policyThreadCeiling host.projected.topology host.policy host.projected.resources
        host.placement := if_pos (topologyReason_eq_none.2 h.topology)
  have hle : decision.actualThreads ≤ threadCeiling host.projected :=
    hthreads ▸ actualThreads_le _ _
  obtain ⟨hrequested, hmaximum, hcapacity, havailable, hprocessors, hnode⟩ :=
    ceiling_le host.projected.topology host.policy host.projected.resources host.placement
  rw [hceiling] at hle
  exact
    { two := hthreads ▸ h.threads
      requested := hle.trans hrequested
      configured := fun hconfigured => hle.trans (hmaximum hconfigured)
      workers := hle.trans hcapacity
      available := hle.trans havailable
      processors := hle.trans hprocessors
      node := fun hsingle => hle.trans (hnode hcomplete hsingle) }

variable {feature : CpuFeatureV2} {capabilities : CpuCapabilities}

theorem usable_iff :
    capabilities.hasUsableFeature feature = true ↔
      capabilities.hardware.featureAvailable feature = true ∧
        capabilities.osEnabled.featureAvailable feature = true ∧
        capabilities.compiler.featureAvailable feature = true ∧
        capabilities.implementation.featureAvailable feature = true := by
  unfold CpuCapabilities.hasUsableFeature
  simp only [and_eq_true, and_assoc]

theorem hasFeature_projected (capabilities : CpuCapabilities) :
    hasFeature (projectBaseline capabilities) .avx2 = capabilities.hasUsableFeature .avx2 ∧
      hasFeature (projectBaseline capabilities) .fma = capabilities.hasUsableFeature .fma := by
  have hmask : ∀ portable avx2 fma : Bool,
      let features := (if portable then featureBitV1 .portableScalarF32 else 0) |||
        (if avx2 then featureBitV1 .avx2 else 0) ||| (if fma then featureBitV1 .fma else 0)
      decide (features &&& featureBitV1 .avx2 ≠ 0) = avx2 ∧
        decide (features &&& featureBitV1 .fma ≠ 0) = fma := by decide
  exact hmask _ _ _

variable {domain : CpuFeatureDomain}

theorem covers_of_available (h : domain.featureAvailable feature = true) :
    Covers domain.available (featureBit feature) := by
  have hindex : feature.index < 64 := by cases feature <;> decide
  unfold CpuFeatureDomain.featureAvailable at h
  rw [and_eq_true, decide_eq_true_eq] at h
  exact (covers_bit hindex).2 h.2

theorem available_of_covers (hformed : domain.wellFormed = true)
    (h : Covers domain.available (featureBit feature)) :
    domain.featureAvailable feature = true := by
  have hindex : feature.index < 64 := by cases feature <;> decide
  unfold CpuFeatureDomain.wellFormed at hformed
  rw [and_eq_true, decide_eq_true_eq, decide_eq_true_eq] at hformed
  have hknown : Covers domain.known (featureBit feature) := by
    refine covers_iff.2 fun i hi => ?_
    have hbit := congrArg (BitVec.getLsbD · i) hformed.2
    have havailable := covers_iff.1 h i hi
    have hlt := BitVec.lt_of_getLsbD havailable
    simpa [havailable, hlt] using hbit
  unfold CpuFeatureDomain.featureAvailable CpuFeatureDomain.featureKnown
  rw [and_eq_true, decide_eq_true_eq, decide_eq_true_eq]
  exact ⟨(covers_bit hindex).1 hknown, (covers_bit hindex).1 h⟩

theorem validated_record (h : validateCpuCapabilities capabilities = none)
    (hknown : capabilities.architecture ≠ .unknown) :
    capabilities.implementation.wellFormed = true ∧
      Covers capabilities.hardware.available (featureBit .portableScalarF32) ∧
      Covers capabilities.osEnabled.available (featureBit .portableScalarF32) ∧
      Covers capabilities.compiler.available (featureBit .portableScalarF32) := by
  unfold validateCpuCapabilities knownArchitectureReason at h
  rw [if_neg hknown] at h
  simp only [Option.orElse_eq_none, List.flatMap_cons, List.cons_append, List.nil_append,
    firstRefusal_cons, or_eq_false_iff, decide_eq_false_iff_not, not_eq_false',
    and_assoc] at h
  obtain ⟨_, _, _, _, _, _, _, _, hformed, _, _, _, _, hhardware, hos, hcompiler, _⟩ := h
  have hindex : CpuFeatureV2.portableScalarF32.index < 64 := by decide
  exact ⟨hformed, (covers_bit hindex).2 hhardware, (covers_bit hindex).2 hos,
    (covers_bit hindex).2 hcompiler⟩

/-- The features of a parallel implementation besides the portable ones. -/
theorem covers_required {mask : BitVec 64} :
    Covers mask (requiredFeatures (parallelVariant avx512)) ↔
      Covers mask (featureBit .portableScalarF32) ∧
        Covers mask (featureBit (if avx512 then .avx512f else .avx2)) ∧
        Covers mask (featureBit .fma) := by
  cases avx512 <;> exact (covers_or.trans (and_congr_right fun _ => covers_or))

/-- Evidence comes from a valid record, of the one architecture that has the features. -/
theorem evidence_record (h : ParallelEvidence host.projected avx512) :
    validateCpuCapabilities host.capabilities = none ∧
      host.capabilities.architecture = .x86_64 := by
  have harchitecture : (projectCpuCapabilities host.capabilities).baseline.architecture =
      .x86_64 := h.architecture
  unfold projectCpuCapabilities at harchitecture
  cases hvalid : validateCpuCapabilities host.capabilities with
  | some reason =>
    rw [hvalid] at harchitecture
    cases harchitecture
  | none =>
    rw [hvalid] at harchitecture
    refine ⟨rfl, ?_⟩
    unfold projectBaseline at harchitecture
    dsimp only at harchitecture
    split at harchitecture
    · assumption
    iterate 3 cases harchitecture

theorem projected_capability (hvalid : validateCpuCapabilities host.capabilities = none) :
    (projectCpuCapabilities host.capabilities).valid = true ∧
      host.projected.capabilities = projectBaseline host.capabilities ∧
      host.projected.resources.avx512fHardware =
        host.capabilities.hardware.featureAvailable .avx512f ∧
      host.projected.resources.avx512fOsEnabled =
        host.capabilities.osEnabled.featureAvailable .avx512f ∧
      host.projected.resources.avx512fCompilerSupported =
        host.capabilities.compiler.featureAvailable .avx512f ∧
      host.projected.resources.nativeParallelAvx512FmaCompiled =
        (host.resources.nativeParallelAvx512FmaCompiled &&
          host.capabilities.implementation.featureAvailable .avx512f) := by
  unfold HostInput.projected projectCpuCapabilities normalizeResources
  rw [hvalid]
  exact ⟨rfl, rfl, rfl, rfl, rfl, rfl⟩

/-- With the evidence, the features besides the portable ones are usable. -/
theorem evidence_usable (h : ParallelEvidence host.projected avx512) :
    host.capabilities.hasUsableFeature (if avx512 then .avx512f else .avx2) = true ∧
      host.capabilities.hasUsableFeature .fma = true := by
  obtain ⟨hvalid, -⟩ := evidence_record h
  obtain ⟨-, hbaseline, hhardware, hos, hcompiler, himplementation⟩ := projected_capability hvalid
  obtain ⟨havx2, hfma⟩ := hasFeature_projected host.capabilities
  have hfmaUsable := h.fma
  rw [hbaseline, hfma] at hfmaUsable
  refine ⟨?_, hfmaUsable⟩
  have hvector := h.vector
  cases avx512 with
  | false =>
    have hfeature : hasFeature host.projected.capabilities .avx2 = true := hvector.1
    rwa [hbaseline, havx2] at hfeature
  | true =>
    obtain ⟨h1, h2, h3⟩ : _ ∧ _ ∧ _ := hvector
    have hcompiled : host.projected.resources.nativeParallelAvx512FmaCompiled = true := h.compiled
    rw [himplementation, and_eq_true] at hcompiled
    exact usable_iff.2 ⟨hhardware ▸ h1, hos ▸ h2, hcompiler ▸ h3, hcompiled.2⟩

/-- Of the features of a legal candidate, only the portable ones of the implementation may be
missing. -/
theorem evidence_features (h : ParallelEvidence host.projected avx512)
    (hhardware : decision.requiredHardwareFeatures = requiredFeatures (parallelVariant avx512))
    (hos : decision.requiredOsFeatures = requiredFeatures (parallelVariant avx512))
    (hcompiler : decision.requiredCompilerFeatures = requiredFeatures (parallelVariant avx512))
    (himplementation :
      decision.requiredImplementationFeatures = requiredFeatures (parallelVariant avx512)) :
    FeaturesPresent host.capabilities decision ↔
      host.capabilities.implementation.featureAvailable .portableScalarF32 = true := by
  obtain ⟨hvalid, harchitecture⟩ := evidence_record h
  obtain ⟨hformed, hportableHardware, hportableOs, hportableCompiler⟩ :=
    validated_record hvalid (by rw [harchitecture]; exact ArchitectureKind.noConfusion)
  obtain ⟨hvector, hfma⟩ := evidence_usable h
  obtain ⟨hvector1, hvector2, hvector3, hvector4⟩ := usable_iff.1 hvector
  obtain ⟨hfma1, hfma2, hfma3, hfma4⟩ := usable_iff.1 hfma
  constructor
  · intro hpresent
    have hcovers := hpresent.implementation
    rw [himplementation, covers_required] at hcovers
    exact available_of_covers hformed hcovers.1
  · intro hportable
    exact
      { hardware := hhardware ▸ covers_required.2
          ⟨hportableHardware, covers_of_available hvector1, covers_of_available hfma1⟩
        os := hos ▸ covers_required.2
          ⟨hportableOs, covers_of_available hvector2, covers_of_available hfma2⟩
        compiler := hcompiler ▸ covers_required.2
          ⟨hportableCompiler, covers_of_available hvector3, covers_of_available hfma3⟩
        implementation := himplementation ▸ covers_required.2
          ⟨covers_of_available hportable, covers_of_available hvector4,
            covers_of_available hfma4⟩ }

variable {request : CpuGemmRequestV3}

/-- A legal parallel candidate of a plan is what the planner decides on a record with all the
evidence. -/
theorem legal_candidate {registry : List CpuGemmVariantRecordV3}
    (hmem : decision ∈ (planForHost registry buildAvailable host request).candidates)
    (hvariant : decision.variant = parallelVariant avx512) (hlegal : decision.legal = true) :
    ParallelEvidence host.projected avx512 ∧
      ∃ record, record.variant = parallelVariant avx512 ∧
        decision = decideV3 buildAvailable host.projected record := by
  unfold planForHost at hmem
  dsimp only at hmem
  split at hmem
  · obtain ⟨record, -, rfl⟩ := List.mem_map.1 hmem
    have hillegal : (false : Bool) = true := (legal_metadata _ _).symm.trans hlegal
    cases hillegal
  · rw [(planOverV3_selects registry request).1] at hmem
    obtain ⟨record, -, rfl⟩ := List.mem_map.1 hmem
    rw [decideV3_variant] at hvariant
    exact ⟨(parallel_legal_iff hvariant).1 hlegal, record, hvariant, rfl⟩

/-- With the evidence, the registry has a candidate for it and the planner finds it legal. -/
theorem candidate_of_evidence (request : CpuGemmRequestV3)
    (h : ParallelEvidence host.projected avx512) :
    ∃ decision ∈
        (planForHost cpuGemmVariantRegistryV3 buildAvailable host request).candidates,
      decision.variant = parallelVariant avx512 ∧ decision.legal = true := by
  obtain ⟨hvalid, -⟩ := evidence_record h
  obtain ⟨record, hrecord, hvariant⟩ :
      ∃ record ∈ cpuGemmVariantRegistryV3, record.variant = parallelVariant avx512 := by
    cases avx512 <;> simp [cpuGemmVariantRegistryV3, parallelVariant]
  refine ⟨decideV3 buildAvailable host.projected record, ?_, decideV3_variant.trans hvariant,
    (parallel_legal_iff hvariant).2 h⟩
  unfold planForHost
  dsimp only
  have hprojected : (!(projectCpuCapabilities host.capabilities).valid) = false := by
    rw [(projected_capability hvalid).1]
    rfl
  rw [hprojected, if_neg Bool.false_ne_true, (planOverV3_selects _ request).1]
  exact List.mem_map_of_mem hrecord

/-- What a plan promises of every parallel candidate that it marks legal. -/
def LegalPlanFits (buildAvailable : Bool) (host : HostInput) (request : CpuGemmRequestV3) : Prop :=
  ∀ decision ∈ (planForHost cpuGemmVariantRegistryV3 buildAvailable host request).candidates,
    ∀ avx512, decision.variant = parallelVariant avx512 → decision.legal = true →
      FitsMachine host decision ∧ FeaturesPresent host.capabilities decision ∧
        ParallelEvidence host.projected avx512

/-- What holds of a legal candidate, up to the portable features of the implementation. -/
theorem legal_candidate_fits (hmem : decision ∈
      (planForHost cpuGemmVariantRegistryV3 buildAvailable host request).candidates)
    (hvariant : decision.variant = parallelVariant avx512) (hlegal : decision.legal = true) :
    ParallelEvidence host.projected avx512 ∧ FitsMachine host decision ∧
      (FeaturesPresent host.capabilities decision ↔
        host.capabilities.implementation.featureAvailable .portableScalarF32 = true) := by
  obtain ⟨hevidence, record, hrecord, rfl⟩ := legal_candidate hmem hvariant hlegal
  obtain ⟨hthreads, hhardware, hos, hcompiler, himplementation⟩ :=
    legal_parallel hrecord hevidence
  rw [hrecord] at hhardware hos hcompiler himplementation
  exact ⟨hevidence, evidence_fits hevidence hthreads,
    evidence_features hevidence hhardware hos hcompiler himplementation⟩

theorem portable_of_fits (hfits : LegalPlanFits buildAvailable host request)
    (hevidence : ParallelEvidence host.projected avx512) :
    host.capabilities.implementation.featureAvailable .portableScalarF32 = true := by
  obtain ⟨decision, hmem, hvariant, hlegal⟩ := candidate_of_evidence request hevidence
  obtain ⟨-, -, hiff⟩ := legal_candidate_fits hmem hvariant hlegal
  exact hiff.1 (hfits decision hmem avx512 hvariant hlegal).2.1

/-- **A legal parallel plan** fits the machine and has all its evidence; its features are in every
domain exactly where the implementation has the portable ones, which the ladder never asks for. -/
theorem legal_plan_fits_iff (buildAvailable : Bool) (host : HostInput)
    (request : CpuGemmRequestV3) :
    LegalPlanFits buildAvailable host request ↔
      host.capabilities.implementation.featureAvailable .portableScalarF32 = true ∨
        ∀ avx512, ¬ ParallelEvidence host.projected avx512 := by
  constructor
  · intro hfits
    by_contra hnot
    rw [not_or, not_forall] at hnot
    obtain ⟨hportable, avx512, hevidence⟩ := hnot
    rw [not_not] at hevidence
    exact hportable (portable_of_fits hfits hevidence)
  · intro h decision hmem avx512 hvariant hlegal
    obtain ⟨hevidence, hfits, hiff⟩ := legal_candidate_fits hmem hvariant hlegal
    refine ⟨hfits, hiff.2 ?_, hevidence⟩
    cases h with
    | inl hportable => exact hportable
    | inr hnone => exact absurd hevidence (hnone avx512)

/-- A topology of two cores on one node. -/
def twoCores : CpuTopology :=
  { architecture := .x86_64
    discoveryComplete := true
    logicalProcessors := [
      { logicalCpu := 0, coreId := 0, packageId := 0, numaNodeId := 0, threadIndex := 0
        online := true },
      { logicalCpu := 1, coreId := 1, packageId := 0, numaNodeId := 0, threadIndex := 0
        online := true }]
    numaNodes := [{ nodeId := 0, logicalCpus := [0, 1] }]
    cacheGroups := [
      { level := 3, type := .unified, sizeBytes := 2 ^ 23, lineSizeBytes := 64
        sharedLogicalCpus := [0, 1] }] }

def onTwoCores : CpuPlannerPlacementEvidence :=
  { evidenceComplete := true
    localLogicalProcessorCapacity := 2
    localPhysicalCoreCapacity := 2
    selectedNumaNodeCount := 1 }

/-- A record with AVX2 and FMA, where the implementation has `implemented`. -/
def avx2Record (implemented : BitVec 64) : CpuCapabilities :=
  let vector := featureBit .avx2 ||| featureBit .fma
  let usable : CpuFeatureDomain :=
    { known := knownCpuFeatureBits, available := featureBit .portableScalarF32 ||| vector }
  let implementation : CpuFeatureDomain :=
    { known := knownCpuFeatureBits, available := implemented ||| vector }
  { architecture := .x86_64
    hardware := usable
    osEnabled := usable
    compiler := usable
    implementation
    runtimeValidation := implementation
    usableVectorBits := 256 }

/-- Two cores, and an implementation without the portable features. -/
def hostWithoutPortable : HostInput :=
  { problem := { m := 256, n := 256, k := 64 }
    capabilities := avx2Record 0
    topology := twoCores
    policy := { requestedThreads := 2 }
    resources :=
      { baseline := { nativePackedAvx2FmaCompiled := true }
        nativePackedAvx2FmaRuntimeValidated := true
        executionContextAvailable := true
        executionContextWorkerCapacity := 2
        nativeParallelAvx2FmaCompiled := true
        nativeParallelAvx2FmaRuntimeValidated := true
        nativeParallelAvx2WorkspaceSizeValid := true
        nativeParallelAvx2SharedWorkspaceBytes := 2 ^ 18
        nativeParallelAvx2PerWorkerWorkspaceBytes := 2 ^ 17
        nativeParallelAvx2WorkspaceAlignment := 64 }
    placement := onTwoCores }

theorem hostWithoutPortable_threads :
    (parallelTasks hostWithoutPortable.projected).actualThreads = 2 := by
  have hceiling : threadCeiling hostWithoutPortable.projected = 2 := by decide +kernel
  unfold parallelTasks planCpuParallelTasks leastCommonMultiple
  rw [hceiling]
  decide +kernel

theorem hostWithoutPortable_evidence :
    ParallelEvidence hostWithoutPortable.projected false := by
  constructor
  case threads => exact hostWithoutPortable_threads.ge
  case total =>
    rw [hostWithoutPortable_threads]
    decide +kernel
  case work =>
    rw [hostWithoutPortable_threads]
    decide +kernel
  case vector =>
    unfold VectorState
    decide +kernel
  case problem => exact commonLegalityReason_eq_none.1 (by decide +kernel)
  case record => exact capabilityRecordReason_eq_none.1 (by decide +kernel)
  case topology => exact topologyReason_eq_none.1 (by decide +kernel)
  case placement => exact placementReason_eq_none.1 (by decide +kernel)
  all_goals decide +kernel

/-- There the parallel candidate is legal, without a feature that it requires. -/
theorem legal_plan_without_portable :
    ¬ ∀ buildAvailable host request, LegalPlanFits buildAvailable host request := by
  intro h
  have hportable := portable_of_fits (h true hostWithoutPortable .automatic)
    hostWithoutPortable_evidence
  revert hportable
  decide +kernel

end Host

end Matcore.Planner
