import Matcore.Planner.Host

/-!
# The planner takes the least legal candidate

One iteration of the loop does what one step of `List.argmin` does on the candidates that may
compete, ordered by cost, priority and place in the registry. So the run over the registry ends
at their minimum, and what the plans say of it follows.
-/

namespace Matcore.Planner

open Gemm

section Loop

variable {R V D : Type} {core : D → Candidate V} {matchesRequest : V → Bool} {variant : V}

/-- Cost, priority and index, in this order. -/
def rank (entry : ℕ × Candidate V) : ℕ ×ₗ ℕ ×ₗ ℕ :=
  toLex (entry.2.estimatedCost, toLex (entry.2.deterministicPriority, entry.1))

/-- The locals of the loop hold the best of the entries seen. -/
def Selection.Holds (selection : Selection V) : Option (ℕ × Candidate V) → Prop
  | none => selection.found = false
  | some (index, decision) =>
    selection.found = true ∧ selection.bestCost = decision.estimatedCost ∧
      selection.bestPriority = decision.deterministicPriority ∧ selection.bestIndex = index ∧
      selection.selectedVariant = decision.variant ∧ selection.selectedId = decision.stableId

theorem rank_lt {index best : ℕ} {decision other : Candidate V} :
    rank (index, decision) < rank (best, other) ↔
      decision.estimatedCost < other.estimatedCost ∨
        decision.estimatedCost = other.estimatedCost ∧
          (decision.deterministicPriority < other.deterministicPriority ∨
            decision.deterministicPriority = other.deterministicPriority ∧ index < best) := by
  unfold rank
  rw [Prod.Lex.lt_iff, Prod.Lex.lt_iff]
  rfl

theorem Selection.Holds.consider {selection : Selection V} {entries : List (ℕ × Candidate V)}
    (h : selection.Holds (entries.argmin rank)) (index : ℕ) (decision : Candidate V) :
    (selection.consider index decision).Holds ((entries ++ [(index, decision)]).argmin rank) := by
  rw [List.argmin_concat]
  cases hbest : entries.argmin rank with
  | none =>
    rw [hbest] at h
    have hfound : selection.found = false := h
    simp [Selection.consider, Selection.Holds, hfound]
  | some best =>
    obtain ⟨place, other⟩ := best
    rw [hbest] at h
    obtain ⟨hfound, hcost, hpriority, hindex, hvariant, hid⟩ := h
    have hcompare : (!selection.found || decision.estimatedCost < selection.bestCost ||
        (decision.estimatedCost = selection.bestCost &&
          (decision.deterministicPriority < selection.bestPriority ||
            (decision.deterministicPriority = selection.bestPriority &&
              index < selection.bestIndex)))) = true ↔
        rank (index, decision) < rank (place, other) := by
      rw [rank_lt, hfound, hcost, hpriority, hindex]
      simp
    dsimp only
    unfold Selection.consider
    by_cases hlt : rank (index, decision) < rank (place, other)
    · rw [if_pos (hcompare.2 hlt), if_pos hlt]
      exact ⟨rfl, rfl, rfl, rfl, rfl, rfl⟩
    · rw [if_neg (fun hyes => hlt (hcompare.1 hyes)), if_neg hlt]
      exact ⟨hfound, hcost, hpriority, hindex, hvariant, hid⟩

/-- The candidates that may compete, with their places. -/
def competing (core : D → Candidate V) (matchesRequest : V → Bool) (candidates : List D) :
    List (ℕ × Candidate V) :=
  (candidates.zipIdx.filter fun entry =>
    (core entry.1).legal && matchesRequest (core entry.1).variant).map fun entry =>
      (entry.2, core entry.1)

theorem mem_competing {candidates : List D} {index : ℕ} {decision : Candidate V} :
    (index, decision) ∈ competing core matchesRequest candidates ↔
      ∃ d, candidates[index]? = some d ∧ core d = decision ∧ decision.legal = true ∧
        matchesRequest decision.variant = true := by
  unfold competing
  simp only [List.mem_map, List.mem_filter, Bool.and_eq_true, Prod.exists, Prod.mk.injEq,
    List.mem_zipIdx_iff_getElem?]
  constructor
  · rintro ⟨d, place, ⟨hd, hlegal, hmatches⟩, rfl, rfl⟩
    exact ⟨d, hd, rfl, hlegal, hmatches⟩
  · rintro ⟨d, hd, rfl, hlegal, hmatches⟩
    exact ⟨d, index, ⟨hd, hlegal, hmatches⟩, rfl, rfl⟩

/-- **One iteration** keeps the minimum. -/
theorem visit_holds {pass : Pass V D} (h : pass.selection.Holds
      ((competing core matchesRequest pass.candidates).argmin rank)) (decision : D) :
    (pass.visit core matchesRequest decision).selection.Holds
      ((competing core matchesRequest
        (pass.visit core matchesRequest decision).candidates).argmin rank) := by
  have hlist : competing core matchesRequest (pass.candidates ++ [decision]) =
      competing core matchesRequest pass.candidates ++
        if (core decision).legal && matchesRequest (core decision).variant then
          [(pass.candidates.length, core decision)] else [] := by
    unfold competing
    rw [List.zipIdx_append, List.filter_append, List.map_append, List.zipIdx_singleton,
      List.filter_singleton]
    cases (core decision).legal && matchesRequest (core decision).variant <;> simp
  unfold Pass.visit
  rw [hlist]
  split
  · exact h.consider _ _
  · rw [List.append_nil]
    exact h

/-- **The run** fills the array and ends at the minimum. -/
theorem selectFrom_spec (registry : List R) (decideOn : R → D) :
    (selectFrom registry decideOn core matchesRequest variant).candidates =
        registry.map decideOn ∧
      (selectFrom registry decideOn core matchesRequest variant).selection.Holds
        ((competing core matchesRequest (registry.map decideOn)).argmin rank) := by
  have hrun : ∀ (records : List R) (pass : Pass V D),
      pass.selection.Holds ((competing core matchesRequest pass.candidates).argmin rank) →
      let final := records.foldl
        (fun pass record => pass.visit core matchesRequest (decideOn record)) pass
      final.candidates = pass.candidates ++ records.map decideOn ∧
        final.selection.Holds
          ((competing core matchesRequest final.candidates).argmin rank) := by
    intro records
    induction records with
    | nil => exact fun pass h => ⟨(List.append_nil _).symm, h⟩
    | cons record records ih =>
      intro pass h
      obtain ⟨hcandidates, hholds⟩ := ih _ (visit_holds h (decideOn record))
      refine ⟨?_, hholds⟩
      rw [List.foldl_cons, hcandidates]
      simp [Pass.visit]
  obtain ⟨hcandidates, hholds⟩ := hrun registry
    { selection := { bestIndex := registry.length, selectedVariant := variant } } rfl
  rw [hcandidates] at hholds
  exact ⟨hcandidates, hholds⟩

end Loop

/-- Candidate `index` is legal and matches the request. -/
def Eligible {V D : Type} (core : D → Candidate V) (matchesRequest : V → Bool)
    (candidates : List D) (index : ℕ) (decision : D) : Prop :=
  candidates[index]? = some decision ∧ (core decision).legal = true ∧
    matchesRequest (core decision).variant = true

/-- A plan selects when a candidate is eligible, and then one whose cost, priority and index are
least in this order. -/
structure SelectsLeast {V D : Type} (core : D → Candidate V) (matchesRequest : V → Bool)
    (candidates : List D) (status : CpuPlanStatus) (selectedVariant : V) (selectedId : String) :
    Prop where
  selected : status = .selected ↔
    ∃ index decision, Eligible core matchesRequest candidates index decision
  least : status = .selected → ∃ index decision,
    Eligible core matchesRequest candidates index decision ∧
    selectedVariant = (core decision).variant ∧ selectedId = (core decision).stableId ∧
    ∀ other rival, Eligible core matchesRequest candidates other rival →
      rank (index, core decision) ≤ rank (other, core rival)

section Plans

variable {R V D : Type} {core : D → Candidate V} {matchesRequest : V → Bool} {variant : V}

theorem selectsLeast_of_run (registry : List R) (decideOn : R → D) {status : CpuPlanStatus}
    (hstatus : status = .selected ↔
      (selectFrom registry decideOn core matchesRequest variant).selection.found = true) :
    SelectsLeast core matchesRequest (registry.map decideOn) status
      (selectFrom registry decideOn core matchesRequest variant).selection.selectedVariant
      (selectFrom registry decideOn core matchesRequest variant).selection.selectedId := by
  have hholds := (@selectFrom_spec R V D core matchesRequest variant registry decideOn).2
  generalize (selectFrom registry decideOn core matchesRequest variant).selection = selection at *
  have hmem : ∀ index decision,
      Eligible core matchesRequest (registry.map decideOn) index decision →
      (index, core decision) ∈ competing core matchesRequest (registry.map decideOn) := by
    intro index decision h
    exact mem_competing.2 ⟨decision, h.1, rfl, h.2.1, h.2.2⟩
  cases hbest : (competing core matchesRequest (registry.map decideOn)).argmin rank with
  | none =>
    rw [hbest] at hholds
    have hnot : ¬ status = .selected := by
      intro h
      rw [hstatus, hholds] at h
      cases h
    refine ⟨⟨fun h => absurd h hnot, ?_⟩, fun h => absurd h hnot⟩
    rintro ⟨index, decision, h⟩
    have hnone := hmem index decision h
    rw [List.argmin_eq_none.1 hbest] at hnone
    cases hnone
  | some best =>
    obtain ⟨index, winner⟩ := best
    rw [hbest] at hholds
    obtain ⟨hfound, -, -, -, hvariant, hid⟩ := hholds
    obtain ⟨decision, hplace, rfl, hlegal, hmatches⟩ :=
      mem_competing.1 (List.argmin_mem hbest)
    have heligible : Eligible core matchesRequest (registry.map decideOn) index decision :=
      ⟨hplace, hlegal, hmatches⟩
    refine ⟨⟨fun _ => ⟨index, decision, heligible⟩, fun _ => hstatus.2 hfound⟩, fun _ => ?_⟩
    refine ⟨index, decision, heligible, hvariant, hid, fun other rival h => ?_⟩
    exact List.le_of_mem_argmin (hmem other rival h) hbest

theorem selectsLeast_of_illegal {candidates : List D} {status : CpuPlanStatus} {text : String}
    (hstatus : status ≠ .selected) (h : ∀ d ∈ candidates, (core d).legal = false) :
    SelectsLeast core matchesRequest candidates status variant text := by
  refine ⟨⟨fun hs => absurd hs hstatus, ?_⟩, fun hs => absurd hs hstatus⟩
  rintro ⟨index, decision, hplace, hlegal, -⟩
  rw [h decision (List.mem_of_getElem? hplace)] at hlegal
  cases hlegal

theorem not_found_of_illegal (registry : List R) (decideOn : R → D)
    (h : ∀ record, (core (decideOn record)).legal = false) :
    (selectFrom registry decideOn core matchesRequest variant).selection.found = false := by
  have hholds := (@selectFrom_spec R V D core matchesRequest variant registry decideOn).2
  have hempty : competing core matchesRequest (registry.map decideOn) = [] := by
    rw [List.eq_nil_iff_forall_not_mem]
    rintro ⟨index, decision⟩ hmem
    obtain ⟨d, hplace, rfl, hlegal, -⟩ := mem_competing.1 hmem
    obtain ⟨record, -, rfl⟩ := List.mem_map.1 (List.mem_of_getElem? hplace)
    rw [h record] at hlegal
    cases hlegal
  rw [hempty, List.argmin_nil] at hholds
  exact hholds

theorem selects_of_run (variant : V) {registry : List R} {decideOn : R → D}
    {candidates : List D} {status : CpuPlanStatus} {selectedVariant : V} {selectedId : String}
    (hplan : let pass := selectFrom registry decideOn core matchesRequest variant
      (candidates, selectedVariant, selectedId) =
        (pass.candidates, pass.selection.selectedVariant, pass.selection.selectedId) ∧
        (status = .selected ↔ pass.selection.found = true)) :
    candidates = registry.map decideOn ∧
      SelectsLeast core matchesRequest candidates status selectedVariant selectedId := by
  obtain ⟨hfields, hstatus⟩ := hplan
  obtain ⟨rfl, hselected⟩ := Prod.mk.inj hfields
  obtain ⟨rfl, rfl⟩ := Prod.mk.inj hselected
  have hcandidates := (@selectFrom_spec R V D core matchesRequest variant registry decideOn).1
  refine ⟨hcandidates, ?_⟩
  rw [hcandidates]
  exact selectsLeast_of_run registry decideOn hstatus

end Plans

section V1

variable {buildAvailable : Bool} {problem : CpuGemmProblem} {capabilities : CpuCapabilitiesV1}

theorem decideV1_illegal {reason : String} (record : CpuGemmVariantRecordV1)
    (h : (commonLegalityReason problem <|> capabilityRecordReason capabilities) = some reason) :
    (decideV1 buildAvailable problem capabilities record).legal = false := by
  unfold decideV1
  cases hproblem : commonLegalityReason problem with
  | some text => rfl
  | none =>
    cases hcapability : capabilityRecordReason capabilities with
    | some text => rfl
    | none =>
      rw [hproblem, hcapability] at h
      cases h

theorem planOverV1_selects (registry : List CpuGemmVariantRecordV1) (request : CpuGemmRequestV1) :
    let plan := planOverV1 registry buildAvailable problem capabilities request
    plan.candidates = registry.map (decideV1 buildAvailable problem capabilities) ∧
      SelectsLeast id (requestMatchesV1 request) plan.candidates plan.status
        plan.selectedVariant plan.selectedId := by
  have hillegal := fun reason h => @not_found_of_illegal _ _ _ id (requestMatchesV1 request)
    .reference registry (decideV1 buildAvailable problem capabilities)
    fun record => @decideV1_illegal buildAvailable problem capabilities reason record h
  refine selects_of_run .reference ?_
  unfold planOverV1
  generalize selectFrom registry (decideV1 buildAvailable problem capabilities) id
    (requestMatchesV1 request) .reference = pass at *
  cases hproblem : commonLegalityReason problem with
  | some reason =>
    have hfound := hillegal reason (by rw [hproblem]; rfl)
    exact ⟨rfl, by simp [hfound]⟩
  | none =>
    cases hcapability : capabilityRecordReason capabilities with
    | some reason =>
      have hfound := hillegal reason (by rw [hproblem, hcapability]; rfl)
      exact ⟨rfl, by simp [hfound]⟩
    | none =>
      dsimp only
      cases pass.selection.found <;> by_cases hrequest : request = .automatic <;>
        simp [hrequest]

end V1

section V2

variable {buildAvailable : Bool} {problem : CpuGemmProblem} {capabilities : CpuCapabilitiesV1}
  {resources : CpuGemmImplementationResourcesV1} {base : CpuGemmPlanV1}

theorem not_selected_of_invalid (h : invalidBase base = true) :
    base.status ≠ .selected := by
  intro hstatus
  rw [invalidBase, hstatus] at h
  cases h

theorem decideV2_illegal (record : CpuGemmVariantRecordV2) (h : invalidBase base = true) :
    (decideV2 buildAvailable problem capabilities resources base record).legal = false := by
  by_cases hvariant : record.variant = .nativePackedAvx2Fma <;>
    simp [decideV2, h, firstRefusal, hvariant]

theorem planOverV2_selects (registry : List CpuGemmVariantRecordV2) (request : CpuGemmRequestV2) :
    let plan := planOverV2 registry buildAvailable problem capabilities resources request
    plan.candidates = registry.map (decideV2 buildAvailable problem capabilities resources
        (planCpuGemmV1 buildAvailable problem capabilities .forceReference)) ∧
      SelectsLeast (·.toCandidate) (requestMatchesV2 request) plan.candidates plan.status
        plan.selectedVariant plan.selectedId := by
  unfold planOverV2
  generalize planCpuGemmV1 buildAvailable problem capabilities .forceReference = base
  have hillegal := fun h => @not_found_of_illegal _ _ _ (·.toCandidate)
    (requestMatchesV2 request) .reference registry
    (decideV2 buildAvailable problem capabilities resources base)
    fun record => @decideV2_illegal buildAvailable problem capabilities resources base record h
  refine selects_of_run .reference ?_
  dsimp only
  generalize selectFrom registry (decideV2 buildAvailable problem capabilities resources base)
    (·.toCandidate) (requestMatchesV2 request) .reference = pass at *
  cases hbase : invalidBase base with
  | true =>
    have hfound := hillegal hbase
    exact ⟨rfl, by simp [hfound, not_selected_of_invalid hbase]⟩
  | false =>
    cases pass.selection.found <;> by_cases hrequest : request = .automatic <;>
      simp [hrequest]

end V2

section V3

variable {buildAvailable : Bool} {input : PlannerInput}

/-- The resources only say what a candidate needs and whether it is validated. -/
theorem populateResourceMetadata_eq (resources : CpuGemmImplementationResourcesV2)
    (decision : CpuCandidateDecisionV3) :
    ∃ validated required shared perWorker alignment,
      populateResourceMetadata resources decision =
        { decision with
          runtimeValidated := validated
          requiredWorkspaceBytes := required
          sharedWorkspaceBytes := shared
          perWorkerWorkspaceBytes := perWorker
          requiredWorkspaceAlignment := alignment } := by
  unfold populateResourceMetadata CpuCandidateDecisionV3.withWorkspace
    CpuCandidateDecisionV3.withSlices
  dsimp only
  split
  iterate 4 exact ⟨_, _, _, _, _, rfl⟩
  all_goals split <;> exact ⟨_, _, _, _, _, rfl⟩

theorem legal_metadata (resources : CpuGemmImplementationResourcesV2)
    (decision : CpuCandidateDecisionV3) :
    (populateResourceMetadata resources (populateRequirementMetadata decision)).legal =
      decision.legal := by
  obtain ⟨_, _, _, _, _, heq⟩ :=
    populateResourceMetadata_eq resources (populateRequirementMetadata decision)
  rw [heq]
  rfl

theorem decideV3_illegal {refusal : CpuPlanStatus × String} (record : CpuGemmVariantRecordV3)
    (h : invalidInput buildAvailable input = some refusal) :
    (decideV3 buildAvailable input record).legal = false := by
  unfold decideV3
  rw [h]
  exact legal_metadata _ _

theorem planOverV3_selects (registry : List CpuGemmVariantRecordV3) (request : CpuGemmRequestV3) :
    let plan := planOverV3 registry buildAvailable input request
    plan.candidates = registry.map (decideV3 buildAvailable input) ∧
      SelectsLeast (·.toCandidate) (requestMatchesV3 request) plan.candidates plan.status
        plan.selectedVariant plan.selectedId := by
  have hillegal := fun refusal h => @not_found_of_illegal _ _ _ (·.toCandidate)
    (requestMatchesV3 request) .reference registry (decideV3 buildAvailable input)
    fun record => @decideV3_illegal buildAvailable input refusal record h
  refine selects_of_run .reference ?_
  unfold planOverV3
  generalize selectFrom registry (decideV3 buildAvailable input) (·.toCandidate)
    (requestMatchesV3 request) .reference = pass at *
  cases hinvalid : invalidInput buildAvailable input with
  | some refusal =>
    have hfound := hillegal refusal hinvalid
    have hstatus : refusal.1 ≠ .selected := by
      unfold invalidInput at hinvalid
      dsimp only at hinvalid
      split at hinvalid
      · next hbase =>
        rw [← Option.some.inj hinvalid]
        exact not_selected_of_invalid hbase
      · obtain ⟨reason, -, rfl⟩ := Option.map_eq_some_iff.1 hinvalid
        exact CpuPlanStatus.noConfusion
    exact ⟨rfl, by simp [hfound, hstatus]⟩
  | none =>
    dsimp only
    cases pass.selection.found <;> by_cases hrequest : request = .automatic <;>
      simp [hrequest]

theorem planForHost_selects (registry : List CpuGemmVariantRecordV3) (host : HostInput)
    (request : CpuGemmRequestV3) :
    let plan := planForHost registry buildAvailable host request
    SelectsLeast (·.toCandidate) (requestMatchesV3 request) plan.candidates plan.status
      plan.selectedVariant plan.selectedId := by
  unfold planForHost
  dsimp only
  split
  · refine selectsLeast_of_illegal CpuPlanStatus.noConfusion fun d hd => ?_
    obtain ⟨record, -, rfl⟩ := List.mem_map.1 hd
    exact legal_metadata _ _
  · exact (planOverV3_selects registry request).2

end V3

/-- **Selection.** Over any registry, each version decides on every candidate by itself and takes
the least of the legal ones that match the request, by cost, priority and place; it selects
exactly when there is one. The same holds of version 3 over the records of a host. -/
theorem planners_select_least (buildAvailable : Bool) :
    (∀ registry problem capabilities request,
      let plan := planOverV1 registry buildAvailable problem capabilities request
      plan.candidates = registry.map (decideV1 buildAvailable problem capabilities) ∧
        SelectsLeast id (requestMatchesV1 request) plan.candidates plan.status
          plan.selectedVariant plan.selectedId) ∧
    (∀ registry problem capabilities resources request,
      let plan := planOverV2 registry buildAvailable problem capabilities resources request
      plan.candidates = registry.map (decideV2 buildAvailable problem capabilities resources
          (planCpuGemmV1 buildAvailable problem capabilities .forceReference)) ∧
        SelectsLeast (·.toCandidate) (requestMatchesV2 request) plan.candidates plan.status
          plan.selectedVariant plan.selectedId) ∧
    (∀ registry input request,
      let plan := planOverV3 registry buildAvailable input request
      plan.candidates = registry.map (decideV3 buildAvailable input) ∧
        SelectsLeast (·.toCandidate) (requestMatchesV3 request) plan.candidates plan.status
          plan.selectedVariant plan.selectedId) ∧
    ∀ registry host request,
      let plan := planForHost registry buildAvailable host request
      SelectsLeast (·.toCandidate) (requestMatchesV3 request) plan.candidates plan.status
        plan.selectedVariant plan.selectedId :=
  ⟨fun registry _ _ request => planOverV1_selects registry request,
    fun registry _ _ _ request => planOverV2_selects registry request,
    fun registry _ request => planOverV3_selects registry request,
    fun registry host request => planForHost_selects registry host request⟩

end Matcore.Planner
