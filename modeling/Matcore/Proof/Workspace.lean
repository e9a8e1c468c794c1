import Matcore.Planner.Resources
import Matcore.Proof.ParallelPlan

/-!
# The planner and the executor agree on workspaces

The parts of the workspace of a legal candidate add up.
-/

namespace Matcore.Planner

open Except (mapError bind_eq_ok ok_bind)
open Gemm Platform

section Layout

variable {problem : CpuGemmProblem} {threads : ℕ}

theorem checkedMultiply_of_le {a b : ℕ} (h : a * b ≤ uint64Max) :
    checkedMultiply a b = some (a * b) := by
  refine if_neg ?_
  rintro ⟨ha, hlt⟩
  have hle : b ≤ uint64Max / a :=
    (Nat.le_div_iff_mul_le (Nat.pos_of_ne_zero ha)).2 (Nat.mul_comm a b ▸ h)
  omega

/-- The check of the planner is that of the executor. -/
theorem totalParallelWorkspace_eq (shared perWorker threads : ℕ) :
    totalParallelWorkspace shared perWorker threads =
      (checkedMultiply perWorker threads).bind fun bytes =>
        if bytes > uint64Max - shared then none else some (shared + bytes) := by
  unfold totalParallelWorkspace checkedMultiply
  split
  · rfl
  · rfl

/-- **The layout** for a single thread has the region and the slices of every other. -/
theorem slice_any {packedB packedA : WorkspaceRequirements} {single : ParallelWorkspaceRequirements}
    (h : sliceWorkspace 1 packedB packedA = some single) (threads : ℕ) :
    sliceWorkspace threads packedB packedA =
      (totalParallelWorkspace single.workerRegionOffset single.perWorkerStrideBytes threads).map
        fun totalBytes => { single with executionThreads := threads, totalBytes } := by
  unfold sliceWorkspace at h ⊢
  cases hoffset : checkedRoundUpPower packedB.totalBytes workspaceAlignment with
  | none =>
    rw [hoffset] at h
    cases h
  | some offset =>
    cases hstride : checkedRoundUpPower packedA.totalBytes workspaceAlignment with
    | none =>
      rw [hoffset, hstride] at h
      cases h
    | some stride =>
      rw [hoffset, hstride] at h
      simp only [Option.bind_eq_bind, Option.bind_some] at h ⊢
      cases hone : checkedMultiply stride 1 with
      | none =>
        rw [hone] at h
        cases h
      | some bytes =>
        rw [hone] at h
        simp only [Option.bind_some] at h
        split at h
        · cases h
        · cases h
          rw [totalParallelWorkspace_eq]
          cases checkedMultiply stride threads with
          | none => rfl
          | some bytes =>
            simp only [Option.bind_some]
            split <;> rfl

theorem mapError_eq_ok {ε ε' α : Type} {m : Except ε α} {f : ε → ε'} {a : α} :
    m.mapError f = .ok a ↔ m = .ok a := by
  cases m <;> simp [mapError]

/-- What the executor computes for any number of threads. -/
theorem requirements_any {single : ParallelWorkspaceRequirements}
    (h : parallelWorkspaceRequirements problem 1 = .ok single) (hthreads : threads ≠ 0)
    {totalBytes : ℕ} (htotal : totalParallelWorkspace single.workerRegionOffset
      single.perWorkerStrideBytes threads = some totalBytes) :
    parallelWorkspaceRequirements problem threads =
      .ok { single with executionThreads := threads, totalBytes } := by
  unfold parallelWorkspaceRequirements at h ⊢
  rw [if_neg Nat.one_ne_zero] at h
  rw [if_neg hthreads]
  obtain ⟨packedB, hpackedB, h⟩ := bind_eq_ok h
  obtain ⟨packedA, hpackedA, h⟩ := bind_eq_ok h
  rw [hpackedB, ok_bind, hpackedA, ok_bind]
  cases hslice : sliceWorkspace 1 packedB packedA with
  | none =>
    rw [hslice] at h
    cases h
  | some requirements =>
    rw [hslice] at h
    cases h
    rw [slice_any hslice, htotal]
    rfl

theorem checkedRoundUp_of_le {value multiple : ℕ} (hmultiple : 0 < multiple)
    (h : value + multiple ≤ uint64Max) :
    ∃ rounded, checkedRoundUp value multiple = some rounded ∧ rounded ≤ value + multiple := by
  unfold checkedRoundUp checkedAdd
  rw [if_neg (Nat.pos_iff_ne_zero.1 hmultiple)]
  split
  · exact ⟨value, rfl, Nat.le_add_right _ _⟩
  · rw [if_neg (by omega)]
    exact ⟨_, rfl, by omega⟩

theorem matrixBytes_of_le {rows columns : ℕ} (h : rows * columns * 4 ≤ uint64Max) :
    matrixBytes rows columns = some (rows * columns * 4) := by
  unfold matrixBytes
  rw [checkedMultiply_of_le (by omega)]
  exact checkedMultiply_of_le h

/-- The blocks of a valid problem are small: their sizes never overflow. -/
theorem workspaceRequirements_of_valid {dimensions : ℕ × ℕ × ℕ} (mode : WorkspaceMode)
    (h : validateProblem problem = .ok dimensions) :
    ∃ requirements, workspaceRequirements problem mode = .ok requirements := by
  obtain ⟨m, n, k⟩ := dimensions
  have hmax : uint64Max = 2 ^ 64 - 1 := rfl
  have hblockM : min m packedMc ≤ 128 := Nat.min_le_right _ _
  have hblockN : min n packedNc ≤ 256 := Nat.min_le_right _ _
  have hblockK : min k packedKc ≤ 256 := Nat.min_le_right _ _
  obtain ⟨paddedM, hpaddedM, hpaddedMle⟩ :=
    @checkedRoundUp_of_le (min m packedMc) packedMr (by decide) (by unfold packedMr; omega)
  obtain ⟨paddedN, hpaddedN, hpaddedNle⟩ :=
    @checkedRoundUp_of_le (min n packedNc) packedNr (by decide) (by unfold packedNr; omega)
  unfold packedMr at hpaddedMle
  unfold packedNr at hpaddedNle
  have hproductA : paddedM * min k packedKc ≤ 132 * 256 := Nat.mul_le_mul (by omega) hblockK
  have hproductB : paddedN * min k packedKc ≤ 272 * 256 := Nat.mul_le_mul (by omega) hblockK
  have hbytesA := @matrixBytes_of_le paddedM (min k packedKc) (by omega)
  have hbytesB := @matrixBytes_of_le paddedN (min k packedKc) (by omega)
  obtain ⟨offset, hoffset, hoffsetle⟩ :=
    @checkedRoundUp_of_le (paddedM * min k packedKc * 4) workspaceAlignment (by decide)
      (by unfold workspaceAlignment; omega)
  unfold workspaceAlignment at hoffsetle
  have hadd : checkedAdd offset (paddedN * min k packedKc * 4) =
      some (offset + paddedN * min k packedKc * 4) := if_neg (by omega)
  obtain ⟨total, htotal, -⟩ :=
    @checkedRoundUp_of_le (offset + paddedN * min k packedKc * 4) workspaceAlignment (by decide)
      (by unfold workspaceAlignment; omega)
  unfold workspaceRequirements
  rw [h]
  cases mode with
  | transientAAndB =>
    simp [ok_bind, hpaddedM, hpaddedN, hbytesA, hbytesB, hoffset, hadd, htotal, orFail,
      pure, Except.pure]
  | transientAWithPrepackedB =>
    simp [ok_bind, hpaddedM, hpaddedN, hbytesA, hoffset, orFail, pure, Except.pure]

/-- A layout comes from a valid problem. -/
theorem validateProblem_of_requirements {requirements : ParallelWorkspaceRequirements}
    (h : parallelWorkspaceRequirements problem threads = .ok requirements) :
    ∃ dimensions, validateProblem problem = .ok dimensions := by
  unfold parallelWorkspaceRequirements at h
  split at h
  · cases h
  · obtain ⟨packedB, hpackedB, -⟩ := bind_eq_ok h
    rw [mapError_eq_ok] at hpackedB
    obtain ⟨dimensions, hdimensions, -⟩ := bind_eq_ok hpackedB
    exact ⟨dimensions, hdimensions⟩

end Layout

/-- The parts of the workspace of a decision add up, and their sum does not wrap. -/
structure Balanced (decision : CpuCandidateDecisionV3) : Prop where
  sum : decision.sharedWorkspaceBytes + decision.perWorkerWorkspaceBytes * decision.actualThreads =
    decision.requiredWorkspaceBytes
  fits : decision.perWorkerWorkspaceBytes ≠ 0 → decision.requiredWorkspaceBytes ≤ uint64Max

section Decisions

variable {buildAvailable : Bool} {input : PlannerInput} {avx512 : Bool}
  {record : CpuGemmVariantRecordV3}

theorem totalParallelWorkspace_eq_some {shared perWorker threads total : ℕ}
    (hperWorker : perWorker ≠ 0) (hthreads : threads ≠ 0)
    (h : totalParallelWorkspace shared perWorker threads = some total) :
    total = shared + perWorker * threads ∧ total ≤ uint64Max := by
  unfold totalParallelWorkspace at h
  split at h
  · cases h
  · split at h
    · cases h
    · rename_i hle
      have hproduct : 0 < perWorker * threads :=
        Nat.mul_pos (Nat.pos_of_ne_zero hperWorker) (Nat.pos_of_ne_zero hthreads)
      have htotal := (Option.some.inj h).symm
      exact ⟨htotal, by omega⟩

theorem legal_workspace (hvariant : record.variant = parallelVariant avx512)
    (h : ParallelEvidence input avx512) :
    let decision := decideV3 buildAvailable input record
    let implementation := parallelImplementation input.resources avx512
    decision.sharedWorkspaceBytes = implementation.shared ∧
      decision.perWorkerWorkspaceBytes = implementation.perWorker ∧
      decision.requiredWorkspaceAlignment = implementation.alignment ∧
      totalParallelWorkspace implementation.shared implementation.perWorker
        decision.actualThreads = some decision.requiredWorkspaceBytes := by
  obtain ⟨hshared, hperWorker, halignment, hrequired⟩ := described_workspace hvariant h.sizeValid
  have htwo := h.threads
  have hbytes := hrequired h.shared h.perWorker (by omega)
  have haccepted := @accepted_of_evidence buildAvailable _ _ h
  have hreason := (parallelReason_eq_none hvariant haccepted).2 h
  rw [decideV3_parallel hvariant haccepted]
  unfold decideParallel
  dsimp only
  rw [hreason]
  refine ⟨hshared, hperWorker, halignment, ?_⟩
  rw [hbytes]
  obtain ⟨total, htotal⟩ := Option.ne_none_iff_exists'.1
    ((totalParallelWorkspace_ne_none h.perWorker (by omega)).2 h.total)
  rw [htotal]
  exact htotal

theorem decideBaseline_workspace (decision : CpuCandidateDecisionV3) :
    let decided := decideBaseline buildAvailable input decision
    decided.perWorkerWorkspaceBytes = decision.perWorkerWorkspaceBytes ∧
      decided.sharedWorkspaceBytes = decided.requiredWorkspaceBytes := by
  have hstage : ∀ stage : CpuCandidateDecisionV3 → CpuCandidateDecisionV3,
      (∀ d, (stage d).perWorkerWorkspaceBytes = d.perWorkerWorkspaceBytes ∧
        (stage d).sharedWorkspaceBytes = d.sharedWorkspaceBytes ∧
        (stage d).requiredWorkspaceBytes = d.requiredWorkspaceBytes) →
      ∀ d, d.perWorkerWorkspaceBytes = decision.perWorkerWorkspaceBytes ∧
          d.sharedWorkspaceBytes = d.requiredWorkspaceBytes →
        (stage d).perWorkerWorkspaceBytes = decision.perWorkerWorkspaceBytes ∧
          (stage d).sharedWorkspaceBytes = (stage d).requiredWorkspaceBytes := by
    intro stage h d hd
    obtain ⟨h1, h2, h3⟩ := h d
    exact ⟨h1.trans hd.1, h2.trans (hd.2.trans h3.symm)⟩
  unfold decideBaseline
  refine hstage (priceProvider input.problem) (fun d => ?_) _
    (hstage (calibrateBoundPacked input) (fun d => ?_) _
      (hstage (requireValidation input.resources) (fun d => ?_) _
        (hstage (rejectBoundProvider input.policy) (fun d => ?_) _ ⟨rfl, rfl⟩)))
  · unfold priceProvider
    split <;> exact ⟨rfl, rfl, rfl⟩
  · unfold calibrateBoundPacked
    split <;> exact ⟨rfl, rfl, rfl⟩
  · unfold requireValidation
    dsimp only
    split <;> exact ⟨rfl, rfl, rfl⟩
  · unfold rejectBoundProvider
    split <;> exact ⟨rfl, rfl, rfl⟩

theorem metadata_single (hvariant : ∀ avx512, record.variant ≠ parallelVariant avx512) :
    (parallelStart input record).perWorkerWorkspaceBytes = 0 := by
  have hfalse := hvariant false
  have htrue := hvariant true
  unfold parallelStart populateResourceMetadata CpuCandidateDecisionV3.withWorkspace
  dsimp only [populateRequirementMetadata]
  cases hrecord : record.variant <;> dsimp only
  case nativeParallelAvx2Fma => exact absurd hrecord hfalse
  case nativeParallelAvx512Fma => exact absurd hrecord htrue
  all_goals split <;> rfl

theorem single_workspace (hvariant : ∀ avx512, record.variant ≠ parallelVariant avx512)
    (hlegal : (decideV3 buildAvailable input record).legal = true) :
    let decision := decideV3 buildAvailable input record
    decision.perWorkerWorkspaceBytes = 0 ∧
      decision.sharedWorkspaceBytes = decision.requiredWorkspaceBytes := by
  have hfalse := hvariant false
  have htrue := hvariant true
  have hzero : (parallelStart input record).perWorkerWorkspaceBytes = 0 :=
    metadata_single hvariant
  have hstart : (parallelStart input record).legal = false := legal_metadata _ _
  cases haccepted : invalidInput buildAvailable input with
  | some refusal =>
    rw [decideV3_illegal record haccepted] at hlegal
    cases hlegal
  | none =>
    obtain ⟨hsame, hone⟩ :=
      @decideBaseline_workspace buildAvailable input (parallelStart input record)
    rw [hzero] at hsame
    cases hrecord : record.variant with
    | nativeParallelAvx2Fma => exact absurd hrecord hfalse
    | nativeParallelAvx512Fma => exact absurd hrecord htrue
    | nativePackedAvx512Fma =>
      have heq : decideV3 buildAvailable input record =
          decidePackedAvx512 input (parallelStart input record) := by
        unfold decideV3
        rw [haccepted]
        simp [hrecord, parallelStart]
      rw [heq] at hlegal ⊢
      unfold decidePackedAvx512 at hlegal ⊢
      cases hreason : packedAvx512Reason input with
      | some reason =>
        rw [hreason] at hlegal
        rw [hstart] at hlegal
        cases hlegal
      | none => exact ⟨hzero, rfl⟩
    | _ =>
      have heq : decideV3 buildAvailable input record =
          decideBaseline buildAvailable input (parallelStart input record) := by
        unfold decideV3
        rw [haccepted]
        simp [hrecord, parallelStart]
      rw [heq]
      exact ⟨hsame, hone⟩

theorem legal_balanced (hlegal : (decideV3 buildAvailable input record).legal = true) :
    Balanced (decideV3 buildAvailable input record) := by
  by_cases hparallel : ∃ avx512, record.variant = parallelVariant avx512
  · obtain ⟨avx512, hvariant⟩ := hparallel
    have hevidence := (parallel_legal_iff hvariant).1 hlegal
    obtain ⟨hshared, hperWorker, -, htotal⟩ :=
      @legal_workspace buildAvailable _ _ _ hvariant hevidence
    have htwo := hevidence.threads
    have hactual := (@legal_parallel buildAvailable _ _ _ hvariant hevidence).1
    rw [← hactual] at htwo
    obtain ⟨hsum, hfits⟩ :=
      totalParallelWorkspace_eq_some hevidence.perWorker (by omega) htotal
    exact ⟨by rw [hshared, hperWorker, hsum], fun _ => hfits⟩
  · rw [not_exists] at hparallel
    obtain ⟨hperWorker, hshared⟩ := single_workspace hparallel hlegal
    refine ⟨?_, fun h => absurd hperWorker h⟩
    rw [hperWorker, hshared, Nat.zero_mul, Nat.add_zero]

end Decisions

section Plans

variable {buildAvailable : Bool} {host : HostInput} {request : CpuGemmRequestV3}

theorem registry_index {record : CpuGemmVariantRecordV3} {index : ℕ}
    (h : cpuGemmVariantRegistryV3[index]? = some record) : index = record.variant.value := by
  have hbound : index < 8 := (List.getElem?_eq_some_iff.1 h).1
  interval_cases index <;> cases h <;> rfl

/-- **The selected candidate** is legal and stands at the index of its variant. -/
theorem selected_candidate
    (h : (planForHost cpuGemmVariantRegistryV3 buildAvailable host request).status = .selected) :
    let plan := planForHost cpuGemmVariantRegistryV3 buildAvailable host request
    ∃ record, (decideV3 buildAvailable host.projected record).legal = true ∧
      plan.selectedVariant = record.variant ∧
      plan.candidates[plan.selectedVariant.value]? =
        some (decideV3 buildAvailable host.projected record) := by
  unfold planForHost at h ⊢
  dsimp only at h ⊢
  cases hvalid : (projectCpuCapabilities host.capabilities).valid with
  | false =>
    rw [hvalid] at h
    cases h
  | true =>
    have hkept : ¬ (!true) = true := Bool.false_ne_true
    rw [hvalid, if_neg hkept] at h
    rw [if_neg hkept]
    obtain ⟨hcandidates, hselects⟩ := @planOverV3_selects buildAvailable host.projected
      cpuGemmVariantRegistryV3 request
    obtain ⟨index, decision, ⟨hplace, hlegal, -⟩, hvariant, -, -⟩ := hselects.least h
    rw [hcandidates, List.getElem?_map] at hplace
    obtain ⟨record, hrecord, rfl⟩ := Option.map_eq_some_iff.1 hplace
    have hselected : (planOverV3 cpuGemmVariantRegistryV3 buildAvailable host.projected
        request).selectedVariant = record.variant := hvariant.trans decideV3_variant
    refine ⟨record, hlegal, hselected, ?_⟩
    rw [hselected, ← registry_index hrecord, hcandidates, List.getElem?_map, hrecord]
    rfl

/-- What the runtime reads off a plan. -/
def breakdownOf (decision : CpuCandidateDecisionV3) : WorkspaceBreakdown :=
  { total := decision.requiredWorkspaceBytes
    shared := decision.sharedWorkspaceBytes
    perWorker := decision.perWorkerWorkspaceBytes
    alignment := decision.requiredWorkspaceAlignment
    threads := decision.actualThreads }

/-- The breakdown of a selected plan never fails. -/
theorem breakdown_selected {plan : CpuGemmPlanV3} {decision : CpuCandidateDecisionV3}
    (hstatus : plan.status = .selected)
    (hplace : plan.candidates[plan.selectedVariant.value]? = some decision)
    (hbalanced : Balanced decision) :
    selectedWorkspaceBreakdown plan = some (breakdownOf decision) := by
  unfold selectedWorkspaceBreakdown
  rw [if_neg (not_not.2 hstatus), hplace]
  dsimp only
  rw [if_neg, if_neg (not_not.2 hbalanced.sum)]
  · rfl
  · rintro ⟨hperWorker, hthreads⟩
    have hle : decision.actualThreads * decision.perWorkerWorkspaceBytes ≤
        uint64Max - decision.sharedWorkspaceBytes := by
      have hfits := hbalanced.fits hperWorker
      have hsum := hbalanced.sum
      rw [Nat.mul_comm]
      omega
    have hquotient := (Nat.le_div_iff_mul_le (Nat.pos_of_ne_zero hperWorker)).2 hle
    omega

end Plans

section Execution

variable {machine : Machine} {context : ExecutionContext} {problem : CpuGemmProblem}
  {requestedThreads : Fin (2 ^ 32)} {avx512 : Bool}

def isaOf (avx512 : Bool) : Isa := if avx512 then .avx512 else .avx2

theorem resources_single (h : (parallelImplementation (context.hostInput machine problem
      requestedThreads).projected.resources avx512).sizeValid = true) :
    let implementation := parallelImplementation (context.hostInput machine problem
      requestedThreads).projected.resources avx512
    ∃ single, parallelWorkspaceRequirements problem 1 = .ok single ∧
      implementation.shared = single.workerRegionOffset ∧
      implementation.perWorker = single.perWorkerStrideBytes ∧
      implementation.alignment = single.alignmentBytes := by
  have hfields : let implementation := parallelImplementation (context.hostInput machine problem
        requestedThreads).projected.resources avx512
      let sliced := populateParallelWorkspace (parallelWorkspaceRequirements problem 1).toOption
      implementation.sizeValid = sliced.valid ∧ implementation.shared = sliced.sharedBytes ∧
        implementation.perWorker = sliced.perWorkerBytes ∧
        implementation.alignment = sliced.alignment := by
    cases avx512 <;> exact ⟨rfl, rfl, rfl, rfl⟩
  obtain ⟨hvalid, hshared, hperWorker, halignment⟩ := hfields
  dsimp only
  rw [hvalid] at h
  rw [hshared, hperWorker, halignment]
  cases hquery : parallelWorkspaceRequirements problem 1 with
  | error status =>
    rw [hquery] at h
    cases h
  | ok single =>
    refine ⟨single, rfl, ?_⟩
    rw [hquery] at h
    unfold populateParallelWorkspace at h ⊢
    dsimp only [Except.toOption] at h ⊢
    by_cases hlarge : single.alignmentBytes > 2 ^ 32 - 1
    · rw [if_pos hlarge] at h
      cases h
    · rw [if_neg hlarge]
      exact ⟨rfl, rfl, rfl⟩

theorem runtimeUsable_of_validated (h : (parallelImplementation (context.hostInput machine problem
      requestedThreads).projected.resources avx512).validated = true) :
    (machine.backend (isaOf avx512)).runtimeUsable = true := by
  cases avx512 <;> exact (Bool.and_eq_true_iff.1 h).2

/-- Tensors that meet the contract of `problem`, and a workspace beside them. -/
structure BuffersFit (problem : CpuGemmProblem) (buffers : ParallelBuffers)
    (totalBytes alignment : ℕ) : Prop where
  present : buffers.lhs ≠ 0 ∧ buffers.rhs ≠ 0 ∧ buffers.out ≠ 0 ∧ buffers.workspace ≠ 0
  aligned : ∀ pointer ∈ [buffers.lhs, buffers.rhs, buffers.out],
    pointerHasAlignment pointer 4 = true ∧
      pointerHasAlignment pointer problem.minimumAlignmentBytes = true
  workspaceAligned : pointerHasAlignment buffers.workspace alignment = true
  workspaceLarge : totalBytes ≤ buffers.workspaceBytes
  disjoint : ∃ spans workspace, buffers.spans problem totalBytes = some (spans, workspace) ∧
    ∀ pair ∈ [(spans.out, spans.lhs), (spans.out, spans.rhs), (workspace, spans.lhs),
      (workspace, spans.rhs), (workspace, spans.out)], overlaps pair.1 pair.2 = false

variable {buffers : ParallelBuffers}

theorem validate_iff {requirements : ParallelWorkspaceRequirements} :
    buffers.validate problem requirements = none ↔
      BuffersFit problem buffers requirements.totalBytes requirements.alignmentBytes := by
  unfold ParallelBuffers.validate
  simp only [Option.orElse_eq_none, firstRefusal_cons, firstRefusal_nil, and_true,
    Bool.or_eq_false_iff, Bool.not_eq_false', decide_eq_false_iff_not, Nat.not_lt]
  constructor
  · rintro ⟨⟨hpresent, haligned, hworkspace, hlarge⟩, hdisjoint⟩
    obtain ⟨⟨⟨h1, h2⟩, h3⟩, h4⟩ := hpresent
    obtain ⟨⟨⟨⟨⟨hlhs, hrhs⟩, hout⟩, hlhs'⟩, hrhs'⟩, hout'⟩ := haligned
    refine ⟨⟨h1, h2, h3, h4⟩, ?_, hworkspace, hlarge, ?_⟩
    · simp [hlhs, hrhs, hout, hlhs', hrhs', hout']
    · cases hspans : buffers.spans problem requirements.totalBytes with
      | none =>
        rw [hspans] at hdisjoint
        cases hdisjoint
      | some found =>
        rw [hspans] at hdisjoint
        refine ⟨found.1, found.2, rfl, ?_⟩
        simpa [and_assoc] using hdisjoint
  · intro h
    obtain ⟨h1, h2, h3, h4⟩ := h.present
    obtain ⟨spans, workspace, hspans, hoverlaps⟩ := h.disjoint
    have haligned := h.aligned
    simp only [List.forall_mem_cons, List.not_mem_nil, false_implies, implies_true, and_true]
      at haligned hoverlaps
    obtain ⟨⟨hlhs, hlhs'⟩, ⟨hrhs, hrhs'⟩, hout, hout'⟩ := haligned
    refine ⟨⟨⟨⟨⟨h1, h2⟩, h3⟩, h4⟩, ⟨⟨⟨⟨⟨hlhs, hrhs⟩, hout⟩, hlhs'⟩, hrhs'⟩, hout'⟩,
      h.workspaceAligned, h.workspaceLarge⟩, ?_⟩
    rw [hspans]
    simpa [and_assoc] using hoverlaps

/-- The planner's task plan is the one that the executor makes for the threads of the plan. -/
theorem tasks_again {input : PlannerInput} (hlt : threadCeiling input < 2 ^ 32)
    (htwo : 2 ≤ (parallelTasks input).actualThreads) :
    planCpuParallelTasks input.problem (parallelTasks input).actualThreads =
      parallelTasks input := by
  have hpos : 0 < threadCeiling input := by
    have hle := actualThreads_le input.problem (threadCeiling input)
    unfold parallelTasks at htwo
    omega
  have hdimensions : ¬ (input.problem.m ≤ 0 ∨ input.problem.n ≤ 0 ∨ input.problem.k ≤ 0 ∨
      threadCeiling input = 0) := by
    intro h
    unfold parallelTasks planCpuParallelTasks at htwo
    rw [if_pos h] at htwo
    exact absurd htwo (by decide)
  rw [not_or, not_or, not_or] at hdimensions
  exact plan_again (Int.not_le.1 hdimensions.1) (Int.not_le.1 hdimensions.2.1)
    (Int.not_le.1 hdimensions.2.2.1) hpos hlt

theorem preflight_buffers {info : CpuExecutionContextInfo} {transient : WorkspaceRequirements}
    {tasks : CpuParallelTaskPlan} {requirements : ParallelWorkspaceRequirements} {threads : ℕ}
    (hvalid : workspaceRequirements problem .transientAAndB = .ok transient)
    (haccepting : info.acceptingWork = true) (hthreads : threads ≠ 0)
    (hworkers : threads ≤ info.actualWorkerCount)
    (htasks : planCpuParallelTasks problem threads = tasks)
    (hactual : tasks.actualThreads = threads)
    (hrequirements : parallelWorkspaceRequirements problem threads = .ok requirements) :
    preflightParallel true info problem buffers threads .nativeOnly = .ok (tasks, requirements) ↔
      BuffersFit problem buffers requirements.totalBytes requirements.alignmentBytes := by
  have hcapacity : info.actualWorkerCount ≠ 0 := by omega
  have hladder : firstRefusal [
      (!true, CpuParallelGemmStatus.isaUnavailable),
      (!info.acceptingWork || info.actualWorkerCount = 0, .contextUnavailable),
      (decide (threads > info.actualWorkerCount), .invalidThreadCount),
      (decide (tasks.actualThreads = 0), .invalidThreadCount),
      (Parallel.NestingPolicy.nativeOnly = .externalProviderActive && tasks.actualThreads > 1,
        .nestedParallelismRejected)] = none := by
    rw [hactual]
    simp [haccepting, hcapacity, hworkers, hthreads]
  unfold preflightParallel
  rw [if_neg hthreads, if_neg Parallel.NestingPolicy.noConfusion, hvalid, htasks]
  dsimp only [mapError]
  rw [ok_bind, hladder]
  rw [hactual, hrequirements, ok_bind, ← validate_iff]
  cases buffers.validate problem requirements <;> simp

/-- **What the executor accepts** of a legal parallel candidate: every buffer that fits. -/
theorem preflight_iff {record : CpuGemmVariantRecordV3} {vectorized : Bool}
    (hvariant : record.variant = parallelVariant avx512)
    (h : ParallelEvidence (context.hostInput machine problem requestedThreads).projected
      avx512) :
    let decision :=
      decideV3 vectorized (context.hostInput machine problem requestedThreads).projected record
    ∃ tasks requirements,
      parallelWorkspaceRequirements problem decision.actualThreads = .ok requirements ∧
      requirements.totalBytes = decision.requiredWorkspaceBytes ∧
      requirements.alignmentBytes = decision.requiredWorkspaceAlignment ∧
      requirements.workerRegionOffset = decision.sharedWorkspaceBytes ∧
      requirements.perWorkerStrideBytes = decision.perWorkerWorkspaceBytes ∧
      tasks.actualThreads = decision.actualThreads ∧
      ∀ buffers, preflightParallel (machine.backend (isaOf avx512)).runtimeUsable context.workers
          problem buffers decision.actualThreads .nativeOnly = .ok (tasks, requirements) ↔
        BuffersFit problem buffers decision.requiredWorkspaceBytes
          decision.requiredWorkspaceAlignment := by
  set host := context.hostInput machine problem requestedThreads
  obtain ⟨hshared, hperWorker, halignment, htotal⟩ := @legal_workspace vectorized _ _ _ hvariant h
  have hactual := (@legal_parallel vectorized _ _ _ hvariant h).1
  obtain ⟨single, hsingle, hsingleShared, hsinglePerWorker, hsingleAlignment⟩ :=
    resources_single h.sizeValid
  have htwo := h.threads
  have hfits := evidence_fits h hactual
  generalize hdecision : decideV3 vectorized host.projected record = decision at *
  rw [← hactual] at htwo
  have hnonzero : decision.actualThreads ≠ 0 := by omega
  rw [hsingleShared, hsinglePerWorker] at htotal
  have hrequirements := requirements_any hsingle hnonzero htotal
  have hceiling : threadCeiling host.projected < 2 ^ 32 := by
    have hle := (ceiling_le host.projected.topology host.policy host.projected.resources
      host.placement).1
    have heq : threadCeiling host.projected = _ :=
      if_pos (topologyReason_eq_none.2 h.topology)
    rw [heq]
    exact Nat.lt_of_le_of_lt hle requestedThreads.isLt
  have hagain : planCpuParallelTasks problem decision.actualThreads = parallelTasks host.projected := by
    rw [hactual]
    exact tasks_again hceiling h.threads
  refine ⟨parallelTasks host.projected, { single with
      executionThreads := decision.actualThreads
      totalBytes := decision.requiredWorkspaceBytes },
    hrequirements, rfl, hsingleAlignment.symm.trans halignment.symm,
    hsingleShared.symm.trans hshared.symm, hsinglePerWorker.symm.trans hperWorker.symm,
    hactual.symm, fun buffers => ?_⟩
  obtain ⟨dimensions, hvalid⟩ := validateProblem_of_requirements hsingle
  obtain ⟨transient, htransient⟩ := workspaceRequirements_of_valid .transientAAndB hvalid
  rw [runtimeUsable_of_validated h.validated, halignment, hsingleAlignment]
  exact preflight_buffers htransient h.context hnonzero hfits.workers hagain hactual.symm
    hrequirements

variable {request : CpuGemmRequestV3} {host : HostInput}

/-- With the evidence, a request that a parallel candidate matches is selected. -/
theorem selected_of_evidence {vectorized : Bool} (h : ParallelEvidence host.projected avx512)
    (hrequest : requestMatchesV3 request (parallelVariant avx512) = true) :
    (planForHost cpuGemmVariantRegistryV3 vectorized host request).status = .selected := by
  obtain ⟨decision, hmem, hvariant, hlegal⟩ := candidate_of_evidence request h
  obtain ⟨index, hplace⟩ := List.mem_iff_getElem?.1 hmem
  refine (@planForHost_selects vectorized cpuGemmVariantRegistryV3 host request).selected.2
    ⟨index, decision, hplace, hlegal, ?_⟩
  have hmatches : requestMatchesV3 request decision.variant = true := hvariant ▸ hrequest
  exact hmatches

/-- **Planner and executor agree on the workspace.** The breakdown of a selected plan never
fails. For a parallel plan the executor computes the same size, alignment and threads, and it
accepts every workspace of that size and alignment. -/
theorem planner_executor_agree (context : ExecutionContext) (machine : Machine)
    (problem : CpuGemmProblem) (requestedThreads : Fin (2 ^ 32)) (request : CpuGemmRequestV3)
    (hselected :
      (makeAdvancedGemmPlan context machine problem requestedThreads request).status = .selected) :
    let plan := makeAdvancedGemmPlan context machine problem requestedThreads request
    ∃ decision, plan.candidates[plan.selectedVariant.value]? = some decision ∧
      selectedWorkspaceBreakdown plan = some (breakdownOf decision) ∧
      ∀ avx512, plan.selectedVariant = parallelVariant avx512 → ∃ tasks requirements,
        parallelWorkspaceRequirements problem decision.actualThreads = .ok requirements ∧
        requirements.totalBytes = decision.requiredWorkspaceBytes ∧
        requirements.alignmentBytes = decision.requiredWorkspaceAlignment ∧
        requirements.workerRegionOffset = decision.sharedWorkspaceBytes ∧
        requirements.perWorkerStrideBytes = decision.perWorkerWorkspaceBytes ∧
        tasks.actualThreads = decision.actualThreads ∧
        ∀ buffers, preflightParallel (machine.backend (isaOf avx512)).runtimeUsable
            context.workers problem buffers decision.actualThreads .nativeOnly =
              .ok (tasks, requirements) ↔
          BuffersFit problem buffers decision.requiredWorkspaceBytes
            decision.requiredWorkspaceAlignment := by
  obtain ⟨record, hlegal, hvariant, hplace⟩ := selected_candidate hselected
  refine ⟨_, hplace, breakdown_selected hselected hplace (legal_balanced hlegal), ?_⟩
  intro avx512 hparallel
  have hrecord : record.variant = parallelVariant avx512 := hvariant.symm.trans hparallel
  exact preflight_iff hrecord ((parallel_legal_iff hrecord).1 hlegal)

/-- A machine with AVX2, and two workers on two cores of it. -/
def avx2Machine : Machine :=
  { backend := fun isa =>
      { buildAvailable := isa = .avx2, runtimeUsable := isa = .avx2 }
    openblas :=
      { linkedAtBuild := false, linked := false, maximumReportedThreads := 0
        probeAttempted := false, conformant := false }
    vectorizationAvailable := true
    packedAvx2SelfTest := true }

def twoWorkers : ExecutionContext :=
  { workers := { actualWorkerCount := 2, acceptingWork := true }
    validationEvidence :=
      { packedAvx2F32RuntimeValidated := true, parallelAvx2F32RuntimeValidated := true }
    capabilities := avx2Record (featureBit .portableScalarF32)
    availableTopology := twoCores
    placementEvidence := onTwoCores }

theorem twoWorkers_evidence :
    ParallelEvidence
      (twoWorkers.hostInput avx2Machine { m := 256, n := 256, k := 64 } 2).projected false := by
  have hthreads : (parallelTasks (twoWorkers.hostInput avx2Machine
      { m := 256, n := 256, k := 64 } 2).projected).actualThreads = 2 := by
    have hceiling : threadCeiling (twoWorkers.hostInput avx2Machine
      { m := 256, n := 256, k := 64 } 2).projected = 2 := by decide +kernel
    unfold parallelTasks planCpuParallelTasks leastCommonMultiple
    rw [hceiling]
    decide +kernel
  constructor
  case threads => exact hthreads.ge
  case total =>
    rw [hthreads]
    decide +kernel
  case work =>
    rw [hthreads]
    decide +kernel
  case vector =>
    unfold VectorState
    decide +kernel
  case problem => exact commonLegalityReason_eq_none.1 (by decide +kernel)
  case record => exact capabilityRecordReason_eq_none.1 (by decide +kernel)
  case topology => exact topologyReason_eq_none.1 (by decide +kernel)
  case placement => exact placementReason_eq_none.1 (by decide +kernel)
  all_goals decide +kernel

theorem selected_requested {vectorized : Bool}
    (h : (planForHost cpuGemmVariantRegistryV3 vectorized host request).status = .selected) :
    requestMatchesV3 request
      (planForHost cpuGemmVariantRegistryV3 vectorized host request).selectedVariant = true := by
  obtain ⟨_, decision, ⟨_, _, hmatches⟩, hvariant, -, -⟩ :=
    (@planForHost_selects vectorized cpuGemmVariantRegistryV3 host request).least h
  rw [hvariant]
  exact hmatches

/-- Two workers of one plan, and the workspace of their executor. -/
theorem planner_executor_agree_twoWorkers :
    ∃ breakdown requirements,
      selectedWorkspaceBreakdown (makeAdvancedGemmPlan twoWorkers avx2Machine
        { m := 256, n := 256, k := 64 } 2 .forceNativeParallelAvx2Fma) = some breakdown ∧
      parallelWorkspaceRequirements { m := 256, n := 256, k := 64 } breakdown.threads =
        .ok requirements ∧
      requirements.totalBytes = breakdown.total := by
  have hselected : (makeAdvancedGemmPlan twoWorkers avx2Machine { m := 256, n := 256, k := 64 } 2
      .forceNativeParallelAvx2Fma).status = .selected :=
    selected_of_evidence twoWorkers_evidence (by decide)
  have hforced : ∀ variant, requestMatchesV3 .forceNativeParallelAvx2Fma variant = true →
      variant = parallelVariant false := by
    intro variant
    cases variant <;> decide
  obtain ⟨decision, -, hbreakdown, hparallel⟩ := planner_executor_agree twoWorkers avx2Machine
    { m := 256, n := 256, k := 64 } 2 .forceNativeParallelAvx2Fma hselected
  obtain ⟨-, requirements, hrequirements, htotal, -⟩ :=
    hparallel false (hforced _ (selected_requested hselected))
  exact ⟨breakdownOf decision, requirements, hbreakdown, hrequirements, htotal⟩

end Execution

end Matcore.Planner
