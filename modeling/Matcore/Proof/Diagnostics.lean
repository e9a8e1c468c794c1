import Matcore.Planner.V3

/-!
# The diagnostic text of a plan

`DiagnosticWriter` of `cpu_planner.h` and `format_cpu_gemm_plan_v3`. A formatter is the list of the
writes it makes. The length of a text fits `size_t`.
-/

namespace Matcore.Planner

open Function (update update_self update_of_ne)
open Platform

/-- `output` is what the pointer points to, if it is not null. -/
structure DiagnosticWriter where
  output : Option (ℕ → UInt8)
  capacity : ℕ
  required : ℕ := 0

namespace DiagnosticWriter

def character (w : DiagnosticWriter) (value : UInt8) : DiagnosticWriter :=
  { w with
    output := if w.capacity ≠ 0 ∧ w.required + 1 < w.capacity
      then w.output.map (update · w.required value) else w.output
    required := w.required + 1 }

def text (w : DiagnosticWriter) (value : String) : DiagnosticWriter :=
  value.toUTF8.toList.foldl character w

/-- The array of the same name. Twenty digits are enough for 64 bits. -/
def reversed (value : ℕ) : List UInt8 :=
  (48 + value % 10).toUInt8 :: if value / 10 = 0 then [] else reversed (value / 10)

def number (w : DiagnosticWriter) (value : ℕ) : DiagnosticWriter :=
  (reversed value).reverse.foldl character w

def finish (w : DiagnosticWriter) : Option (ℕ → UInt8) × ℕ :=
  let terminator := if w.required < w.capacity then w.required else w.capacity - 1
  (if w.capacity ≠ 0 then w.output.map (update · terminator 0) else w.output, w.required)

end DiagnosticWriter

inductive Write where
  | character (value : Char)
  | text (value : String)
  | number (value : ℕ)

def Write.truth (value : Bool) : Write := .text (if value then "true" else "false")

def Write.run (w : DiagnosticWriter) : Write → DiagnosticWriter
  | .character value => w.character value.toUInt8
  | .text value => w.text value
  | .number value => w.number value

def Write.bytes : Write → List UInt8
  | .character value => [value.toUInt8]
  | .text value => value.toUTF8.toList
  | .number value => (DiagnosticWriter.reversed value).reverse

/-- What every formatter does with its writes. -/
def format (writes : List Write) (output : Option (ℕ → UInt8)) (capacity : ℕ) :
    Option (ℕ → UInt8) × ℕ :=
  let capacity := if output.isNone then 0 else capacity
  (writes.foldl Write.run { output, capacity }).finish

/-- `if (index != 0) writer.character(',')` in front of every element. -/
def commas (elements : List (List Write)) : List Write := [.character ','].intercalate elements

def requestName : CpuGemmRequestV3 → String
  | .automatic => "automatic"
  | .forceReference => "force-reference"
  | .forceTiled => "force-tiled"
  | .forceCompilerVectorized => "force-compiler-vectorized"
  | .forceExternalOpenblas => "force-external-openblas"
  | .forceNativePackedAvx2Fma => "force-native-packed-avx2-fma"
  | .forceNativePackedAvx512Fma => "force-native-packed-avx512-fma"
  | .forceNativeParallelAvx2Fma => "force-native-parallel-avx2-fma"
  | .forceNativeParallelAvx512Fma => "force-native-parallel-avx512-fma"
  | .outside => "invalid"

def statusName : CpuPlanStatus → String
  | .selected => "selected"
  | .noLegalVariant => "no-legal-variant"
  | .forcedVariantIllegal => "forced-variant-illegal"
  | .invalidProblem => "invalid-problem"
  | .invalidCapabilities => "invalid-capabilities"

def numaPolicyName : CpuPlannerNumaPolicy → String
  | .singleNode => "single-node"
  | .localFirst => "local-first"
  | .outside => "invalid"

def affinityName : CpuAffinityPolicy → String
  | .compact => "compact"
  | .scatter => "scatter"
  | .localFirst => "local-first"
  | .outside => "invalid"

def candidateWrites (candidate : CpuCandidateDecisionV3) : List Write := [
  .text candidate.stableId, .character ':',
  .text (if candidate.legal then "legal" else "rejected"),
  .text ":reason=", .text candidate.reason,
  .text ":cost=", .number candidate.estimatedCost,
  .text ":priority=", .number candidate.deterministicPriority,
  .text ":workspace=", .number candidate.requiredWorkspaceBytes,
  .text ":shared-workspace=", .number candidate.sharedWorkspaceBytes,
  .text ":per-worker-workspace=", .number candidate.perWorkerWorkspaceBytes,
  .text ":alignment=", .number candidate.requiredWorkspaceAlignment,
  .text ":threads=", .number candidate.actualThreads,
  .text ":thread-ceiling=", .number candidate.requestedThreadCeiling,
  .text ":row-tasks=", .number candidate.parallelRowTasks,
  .text ":column-tasks=", .number candidate.parallelColumnTasks,
  .text ":task-count=", .number candidate.parallelTaskCount,
  .text ":thread-capacity-limited=", .truth candidate.threadCapacityLimited,
  .text ":runtime-validated=", .truth candidate.runtimeValidated,
  .text ":required-hardware=", .number candidate.requiredHardwareFeatures.toNat,
  .text ":required-os=", .number candidate.requiredOsFeatures.toNat,
  .text ":required-compiler=", .number candidate.requiredCompilerFeatures.toNat,
  .text ":required-implementation=", .number candidate.requiredImplementationFeatures.toNat,
  .text ":cross-numa=", .truth candidate.crossesNumaNodes]

/-- `raw` is the number of a request that is none of the enumerators. -/
def planWrites (raw : ℕ) (plan : CpuGemmPlanV3) : List Write :=
  let policy := plan.threadPolicy
  let placement := plan.placement
  [.text "cpu-planner-v3 request-id=",
    .number (if plan.request = .outside then raw else plan.request.value),
    .text " request=", .text (requestName plan.request),
    .text " requested-threads=", .number policy.requestedThreads,
    .text " max-threads=", .number policy.maximumThreads,
    .text " allow-smt=", .truth policy.allowSmt,
    .text " external-provider-parallelism=", .truth policy.externalProviderParallelismActive,
    .text " worker-affinity-active=", .truth policy.workerAffinityActive,
    .text " physical-cores=", .number plan.topology.physicalCores,
    .text " logical-processors=", .number plan.topology.logicalProcessors,
    .text " available-processors=", .number plan.topology.availableProcessors,
    .text " numa-nodes=", .number plan.topology.numaNodes,
    .text " placement-complete=", .truth placement.evidenceComplete,
    .text " affinity-requested=", .truth placement.affinityRequested,
    .text " affinity-applied=", .truth placement.affinityApplied,
    .text " affinity=", .text (affinityName placement.affinity),
    .text " numa-policy=", .text (numaPolicyName placement.numa),
    .text " local-logical-capacity=", .number placement.localLogicalProcessorCapacity,
    .text " local-physical-capacity=", .number placement.localPhysicalCoreCapacity,
    .text " selected-numa-nodes=["] ++
  commas ((placement.selectedNumaNodes.toList.take placement.selectedNumaNodeCount).map
    fun node => [.number node]) ++
  [.character ']',
    .text " cross-numa=", .truth placement.crossesNumaNodes,
    .text " caller-first-touch=", .truth placement.callerFirstTouchRequired,
    .text " status=", .text (statusName plan.status),
    .text " selected=", .text (if plan.selectedId.isEmpty then "none" else plan.selectedId),
    .text " reason=", .text plan.selectionReason,
    .text " candidates=["] ++
  commas (plan.candidates.map candidateWrites) ++ [.character ']']

def formatCpuGemmPlanV3 (raw : ℕ) (plan : CpuGemmPlanV3) :
    Option (ℕ → UInt8) → ℕ → Option (ℕ → UInt8) × ℕ :=
  format (planWrites raw plan)

/-- What `snprintf` promises of `full`: its length, nothing written at or behind `capacity`, and the
longest prefix that leaves room for the terminator. -/
structure Snprintf (full : List UInt8)
    (run : Option (ℕ → UInt8) → ℕ → Option (ℕ → UInt8) × ℕ) : Prop where
  length : ∀ output capacity, (run output capacity).2 = full.length
  null : ∀ capacity, (run none capacity).1 = none
  buffer : ∀ before capacity, ∃ after, (run (some before) capacity).1 = some after ∧
    (∀ i, capacity ≤ i → after i = before i) ∧
    (0 < capacity → (List.range (min full.length (capacity - 1))).map after =
        full.take (capacity - 1) ∧ after (min full.length (capacity - 1)) = 0)

variable (output : Option (ℕ → UInt8)) (capacity : ℕ)

/-- The writer behind `done`: what would take the place of the terminator is left out. -/
def DiagnosticWriter.after (done : List UInt8) : DiagnosticWriter where
  output := output.map fun before i =>
    if i + 1 < capacity then (done[i]?).getD (before i) else before i
  capacity := capacity
  required := done.length

theorem DiagnosticWriter.character_after (done : List UInt8) (value : UInt8) :
    (after output capacity done).character value = after output capacity (done ++ [value]) := by
  have hlength : (done ++ [value]).length = done.length + 1 := by simp
  unfold character after
  rw [hlength]
  congr 1
  split_ifs <;> cases output <;> simp only [Option.map_none, Option.map_some, Option.some.injEq]
  · funext i
    by_cases hi : i = done.length
    · subst hi
      simp_all
    · rw [update_of_ne hi]
      grind
  · funext i
    grind

/-- What the writer holds after any text. -/
theorem DiagnosticWriter.characters_after (done text : List UInt8) :
    text.foldl character (after output capacity done) = after output capacity (done ++ text) := by
  induction text generalizing done with
  | nil => simp
  | cons value text ih => rw [List.foldl_cons, character_after, ih, List.append_assoc]; rfl

/-- Every write puts its bytes behind what is there, so all of them put the whole text. -/
theorem writes_after (writes : List Write) (done : List UInt8) :
    writes.foldl Write.run (.after output capacity done) =
      .after output capacity (done ++ writes.flatMap Write.bytes) := by
  induction writes generalizing done with
  | nil => simp
  | cons write writes ih =>
    have hrun : Write.run (.after output capacity done) write =
        .after output capacity (done ++ write.bytes) := by
      cases write with
      | character value => exact DiagnosticWriter.character_after ..
      | _ => exact DiagnosticWriter.characters_after ..
    rw [List.foldl_cons, hrun, ih, List.flatMap_cons, List.append_assoc]

theorem snprintf (writes : List Write) :
    Snprintf (writes.flatMap Write.bytes) (format writes) := by
  have hwriter (output capacity) : { output, capacity : DiagnosticWriter } =
      .after output capacity [] := by
    cases output <;> simp [DiagnosticWriter.after]
  refine ⟨fun output capacity => ?_, fun capacity => ?_, fun before capacity => ?_⟩
  all_goals simp only [format, hwriter, writes_after]
  · rfl
  · rfl
  · obtain rfl | hpos := capacity.eq_zero_or_pos
    · simp [DiagnosticWriter.after, DiagnosticWriter.finish]
    set text := writes.flatMap Write.bytes
    have hterminator : (if text.length < capacity then text.length else capacity - 1) =
        min text.length (capacity - 1) := by
      split <;> omega
    refine ⟨update (fun i => if i + 1 < capacity then (text[i]?).getD (before i) else before i)
      (min text.length (capacity - 1)) 0, ?_, fun i hi => ?_, fun _ => ⟨?_, update_self ..⟩⟩
    · simp [DiagnosticWriter.after, DiagnosticWriter.finish, hpos.ne', hterminator]
    · rw [update_of_ne (by omega), if_neg (by omega)]
    · refine List.ext_getElem (by simp [min_comm]) fun i hi hi' => ?_
      simp only [List.length_map, List.length_range, Nat.lt_min] at hi
      rw [List.getElem_map, List.getElem_range, update_of_ne (by omega), if_pos (by omega)]
      simp [hi.1]

/-- Length, bounds and contents, for every plan and every buffer. -/
theorem format_snprintf (raw : ℕ) (plan : CpuGemmPlanV3) :
    Snprintf ((planWrites raw plan).flatMap Write.bytes) (formatCpuGemmPlanV3 raw plan) :=
  snprintf (planWrites raw plan)

end Matcore.Planner
