import Matcore.Ir.V1
import Matcore.Lib.Mlir

/-!
# The guard ledger of a call

The obligations a guard of a two-GEMM region carries: how they are built from the source contract
of its call and its descriptor bindings, and how they are written as an attribute and read back.
-/

namespace Matcore.TwoGemm

open Mlir (Attribute Entries Bytes ascii)
open Ir.V1 (ValueId)

inductive RegionGuardEvidence where
  | representationOnly
  | runtimeValidationRequired
  | callerPreconditionUnproven
  | dispatchExecutionObligationRetained
  deriving DecidableEq

inductive RegionGuardFrontier where
  | sourceContract
  | callValidationBeforeCompute
  | callerThroughCompletion
  | dispatchBeforeExecution
  | executionAndReturn
  deriving DecidableEq

inductive RegionGuardPredicate where
  | sourceTensorContract
  | sourceLayoutContract
  | sourceHostDesignation
  | sourceAccessDesignation
  | sourceNumericalContract
  | sourcePolicyIntent
  | sourceSynchronousIntent
  | dataNonnull
  | positiveDimensions
  | contractionDimensionEqual
  | outputRowsEqual
  | outputColumnsEqual
  | pointerAlignmentRequired
  | byteRangeRepresentable
  | outputInputNoOverlap
  | floatingEnvironmentCompatible
  | descriptorObjectValid
  | backingHostAccessible
  | backingCapacitySufficient
  | backingLifetimeValid
  | backingAccessPermitted
  | noConflictingConcurrentAccess
  | selectedImplementationEligible
  | selectedImplementationResourcesAvailable
  | selectedImplementationNumericalConformant
  | providerStateAndSynchronousCompletion
  | mayWriteBeforeFailureNoRollback
  deriving DecidableEq

/-- One value for each operand of a call, in the order of the ledger. -/
structure Roles (α : Type) where
  output : α
  lhs : α
  rhs : α

def Roles.get {α : Type} (roles : Roles α) : ValueId → α
  | .output => roles.output
  | .lhs => roles.lhs
  | .rhs => roles.rhs

structure RegionGuardEntry where
  predicate : RegionGuardPredicate
  evidence : RegionGuardEvidence
  frontier : RegionGuardFrontier
  subjects : List ValueId
  /-- Present only for `pointerAlignmentRequired`. -/
  alignmentBytes : ℕ := 0

structure RegionGuardLedger where
  siteId : Bytes
  stage : ℕ
  bindings : Roles Bytes
  entries : List RegionGuardEntry

def RegionGuardPredicate.name : RegionGuardPredicate → String
  | .sourceTensorContract => "source_tensor_contract"
  | .sourceLayoutContract => "source_layout_contract"
  | .sourceHostDesignation => "source_host_designation"
  | .sourceAccessDesignation => "source_access_designation"
  | .sourceNumericalContract => "source_numerical_contract"
  | .sourcePolicyIntent => "source_policy_intent"
  | .sourceSynchronousIntent => "source_synchronous_intent"
  | .dataNonnull => "data_nonnull"
  | .positiveDimensions => "positive_dimensions"
  | .contractionDimensionEqual => "contraction_dimension_equal"
  | .outputRowsEqual => "output_rows_equal"
  | .outputColumnsEqual => "output_columns_equal"
  | .pointerAlignmentRequired => "pointer_alignment_required"
  | .byteRangeRepresentable => "byte_range_representable"
  | .outputInputNoOverlap => "output_input_no_overlap"
  | .floatingEnvironmentCompatible => "floating_environment_compatible"
  | .descriptorObjectValid => "descriptor_object_valid"
  | .backingHostAccessible => "backing_host_accessible"
  | .backingCapacitySufficient => "backing_capacity_sufficient"
  | .backingLifetimeValid => "backing_lifetime_valid"
  | .backingAccessPermitted => "backing_access_permitted"
  | .noConflictingConcurrentAccess => "no_conflicting_concurrent_access"
  | .selectedImplementationEligible => "selected_implementation_eligible"
  | .selectedImplementationResourcesAvailable => "selected_implementation_resources_available"
  | .selectedImplementationNumericalConformant => "selected_implementation_numerical_conformant"
  | .providerStateAndSynchronousCompletion => "provider_state_and_synchronous_completion"
  | .mayWriteBeforeFailureNoRollback => "may_write_before_failure_no_rollback"

/-- The keys of `kPredicates`, in its order. -/
def kPredicates : List RegionGuardPredicate :=
  [.sourceTensorContract, .sourceLayoutContract, .sourceHostDesignation, .sourceAccessDesignation,
    .sourceNumericalContract, .sourcePolicyIntent, .sourceSynchronousIntent, .dataNonnull,
    .positiveDimensions, .contractionDimensionEqual, .outputRowsEqual, .outputColumnsEqual,
    .pointerAlignmentRequired, .byteRangeRepresentable, .outputInputNoOverlap,
    .floatingEnvironmentCompatible, .descriptorObjectValid, .backingHostAccessible,
    .backingCapacitySufficient, .backingLifetimeValid, .backingAccessPermitted,
    .noConflictingConcurrentAccess, .selectedImplementationEligible,
    .selectedImplementationResourcesAvailable, .selectedImplementationNumericalConformant,
    .providerStateAndSynchronousCompletion, .mayWriteBeforeFailureNoRollback]

def RegionGuardEvidence.name : RegionGuardEvidence → String
  | .representationOnly => "representation_only"
  | .runtimeValidationRequired => "runtime_validation_required"
  | .callerPreconditionUnproven => "caller_precondition_unproven"
  | .dispatchExecutionObligationRetained => "dispatch_execution_obligation_retained"

def kEvidence : List RegionGuardEvidence :=
  [.representationOnly, .runtimeValidationRequired, .callerPreconditionUnproven,
    .dispatchExecutionObligationRetained]

def RegionGuardFrontier.name : RegionGuardFrontier → String
  | .sourceContract => "source_contract"
  | .callValidationBeforeCompute => "call_validation_before_compute"
  | .callerThroughCompletion => "caller_through_completion"
  | .dispatchBeforeExecution => "dispatch_before_execution"
  | .executionAndReturn => "execution_and_return"

def kFrontiers : List RegionGuardFrontier :=
  [.sourceContract, .callValidationBeforeCompute, .callerThroughCompletion,
    .dispatchBeforeExecution, .executionAndReturn]

def subjectName : ValueId → String
  | .output => "output"
  | .lhs => "lhs"
  | .rhs => "rhs"

def kSubjects : List ValueId := [.output, .lhs, .rhs]

/-- `parse`: the key with the spelling of a string attribute. -/
def parse {κ : Type} (table : List κ) (name : κ → String) : Option Attribute → Option κ
  | some (.string text) => table.find? fun key => ascii (name key) = text
  | _ => none

/-- The dictionary has exactly these fields. -/
def fields (value : Entries) (expected : List String) : Bool :=
  value.names.length = expected.length && expected.all fun key => (value.get key).isSome

/-- A signless integer of the given width. -/
def integer (bits : ℕ) : Option Attribute → Option ℤ
  | some (.integer width value) => if width = bits then some value else none
  | _ => none

def asString : Option Attribute → Option Bytes
  | some (.string text) => some text
  | _ => none

def asArray : Option Attribute → Option (List Attribute)
  | some (.array elements) => some elements.toList
  | _ => none

def asDictionary : Option Attribute → Option Entries
  | some (.dictionary entries) => some entries
  | _ => none

/-- A string attribute that is there and not empty. -/
def nonemptyString (value : Option Attribute) : Option Bytes :=
  match asString value with
  | some text => if text.isEmpty then none else some text
  | none => none

/-- A positive power of two, as a 64-bit integer attribute. -/
def alignment (value : Option Attribute) : Option ℕ :=
  match integer 64 value with
  | some bytes =>
    if 0 < bytes ∧ bytes.toNat &&& (bytes.toNat - 1) = 0 then some bytes.toNat else none
  | none => none

/-- The entries of a row stand in the order of their names. -/
def encodeEntry (entry : RegionGuardEntry) : Attribute :=
  let subjects := entry.subjects.map fun subject => Attribute.string (ascii (subjectName subject))
  let row := Entries.cons "evidence" (.string (ascii entry.evidence.name))
    (.cons "frontier" (.string (ascii entry.frontier.name))
      (.cons "predicate" (.string (ascii entry.predicate.name))
        (.cons "subjects" (.array (.ofList subjects)) .nil)))
  .dictionary (if entry.predicate = .pointerAlignmentRequired then
    .cons "alignment_bytes" (.integer 64 entry.alignmentBytes) row else row)

def encode (ledger : RegionGuardLedger) : Entries :=
  .ofList [
    ("version", .integer 32 1),
    ("site_id", .string ledger.siteId),
    ("stage", .integer 64 ledger.stage),
    ("bindings", .dictionary (.ofList [
      ("output", .string ledger.bindings.output),
      ("lhs", .string ledger.bindings.lhs),
      ("rhs", .string ledger.bindings.rhs)])),
    ("entries", .array (.ofList (ledger.entries.map encodeEntry)))]

/-- The version and the stage, from a dictionary with the fields of a ledger. -/
def ledgerStage (encoded : Entries) : Option ℕ :=
  if fields encoded ["version", "site_id", "stage", "bindings", "entries"] &&
      integer 32 (encoded.get "version") = some 1 then
    match integer 64 (encoded.get "stage") with
    | some stage => if 0 ≤ stage ∧ stage ≤ 1 then some stage.toNat else none
    | none => none
  else none

/-- The site, the bindings and the rows. -/
def ledgerParts (encoded : Entries) : Option (Bytes × Entries × List Attribute) :=
  match nonemptyString (encoded.get "site_id"), asArray (encoded.get "entries"),
    asDictionary (encoded.get "bindings") with
  | some site, some entries, some bindings =>
    if !entries.isEmpty && fields bindings ["output", "lhs", "rhs"] then
      some (site, bindings, entries)
    else none
  | _, _, _ => none

def decodeBinding (bindings : Entries) (role : ValueId) : Except String Bytes :=
  match nonemptyString (bindings.get (subjectName role)) with
  | some descriptor => .ok descriptor
  | none => .error "guard ledger descriptor binding must be nonempty"

/-- The roles of a row, each once. -/
def decodeSubjects : List ValueId → List Attribute → Except String (List ValueId)
  | found, [] => .ok found
  | found, item :: rest =>
    match parse kSubjects subjectName (some item) with
    | some role =>
      if role ∈ found then .error "guard ledger subjects contain unknown or duplicate roles"
      else decodeSubjects (found ++ [role]) rest
    | none => .error "guard ledger subjects contain unknown or duplicate roles"

def decodeEntry (item : Attribute) : Except String RegionGuardEntry :=
  let row := (asDictionary (some item)).getD .nil
  match parse kPredicates (·.name) (row.get "predicate"),
    parse kEvidence (·.name) (row.get "evidence"),
    parse kFrontiers (·.name) (row.get "frontier") with
  | some predicate, some evidence, some frontier =>
    let expected := ["predicate", "evidence", "frontier", "subjects"]
    let aligned := predicate = RegionGuardPredicate.pointerAlignmentRequired
    if !fields row (if aligned then expected ++ ["alignment_bytes"] else expected) then
      .error "guard ledger predicate has unknown or missing fields"
    else match asArray (row.get "subjects") with
      | none => .error "guard ledger subjects must be bounded operand roles"
      | some subjects =>
        if 3 < subjects.length then .error "guard ledger subjects must be bounded operand roles"
        else do
          let subjects ← decodeSubjects [] subjects
          if aligned then
            match alignment (row.get "alignment_bytes") with
            | some bytes => return ⟨predicate, evidence, frontier, subjects, bytes⟩
            | none =>
              .error "guard ledger alignment must be a positive power-of-two requirement"
          else return ⟨predicate, evidence, frontier, subjects, 0⟩
  | _, _, _ => .error "guard ledger has an unknown predicate, evidence class or frontier"

def decodeRegionGuardLedger (encoded : Entries) : Except String RegionGuardLedger :=
  match ledgerStage encoded with
  | none => .error "guard ledger has unknown fields, version or call stage"
  | some stage =>
    match ledgerParts encoded with
    | none => .error "guard ledger lacks source site, descriptor bindings or entries"
    | some (site, bindings, entries) => do
      let output ← decodeBinding bindings .output
      let lhs ← decodeBinding bindings .lhs
      let rhs ← decodeBinding bindings .rhs
      let entries ← entries.mapM decodeEntry
      return ⟨site, stage, ⟨output, lhs, rhs⟩, entries⟩

def tensorKey : ValueId → String
  | .output => "output_semantics"
  | .lhs => "lhs_semantics"
  | .rhs => "rhs_semantics"

/-- The descriptor a binding names and the alignment the contract requires of its role. -/
def boundRole (contract : Entries) (bindings : List Attribute) (stage : ℕ) (role : ValueId) :
    Except String (Bytes × ℕ) :=
  let position := match role with
    | .output => 0
    | .lhs => 1
    | .rhs => 2
  let binding := (asDictionary bindings[position]?).getD .nil
  match nonemptyString (binding.get "descriptor"), asDictionary (contract.get (tensorKey role)) with
  | some descriptor, some semantics =>
    match alignment (semantics.get "alignment_bytes") with
    | some bytes =>
      if integer 64 (binding.get "snapshot_stage") = some (stage : ℤ) then .ok (descriptor, bytes)
      else .error "guard ledger lost a descriptor snapshot or source-required alignment"
    | none => .error "guard ledger lost a descriptor snapshot or source-required alignment"
  | _, _ => .error "guard ledger lost a descriptor snapshot or source-required alignment"

/-- What the runtime validates of one operand. -/
def roleEntries (role : ValueId) (bytes : ℕ) : List RegionGuardEntry :=
  [⟨.dataNonnull, .runtimeValidationRequired, .callValidationBeforeCompute, [role], 0⟩,
    ⟨.positiveDimensions, .runtimeValidationRequired, .callValidationBeforeCompute, [role], 0⟩,
    ⟨.byteRangeRepresentable, .runtimeValidationRequired, .callValidationBeforeCompute, [role], 0⟩,
    ⟨.pointerAlignmentRequired, .runtimeValidationRequired, .callValidationBeforeCompute, [role],
      bytes⟩]

/-- The rows of a ledger. The dimension equations are `lhs.columns = rhs.rows`,
`output.rows = lhs.rows` and `output.columns = rhs.columns`. -/
def requiredEntries (alignments : Roles ℕ) : List RegionGuardEntry :=
  ([.sourceTensorContract, .sourceLayoutContract, .sourceHostDesignation,
      .sourceAccessDesignation] : List RegionGuardPredicate).map
    (⟨·, .representationOnly, .sourceContract, [.output, .lhs, .rhs], 0⟩) ++
  ([.sourceNumericalContract, .sourcePolicyIntent,
      .sourceSynchronousIntent] : List RegionGuardPredicate).map
    (⟨·, .representationOnly, .sourceContract, [], 0⟩) ++
  roleEntries .output alignments.output ++ roleEntries .lhs alignments.lhs ++
    roleEntries .rhs alignments.rhs ++
  ([(.contractionDimensionEqual, [.lhs, .rhs]), (.outputRowsEqual, [.output, .lhs]),
      (.outputColumnsEqual, [.output, .rhs]), (.outputInputNoOverlap, [.output, .lhs]),
      (.outputInputNoOverlap, [.output, .rhs]),
      (.floatingEnvironmentCompatible, [])] : List (RegionGuardPredicate × List ValueId)).map
    (fun row => ⟨row.1, .runtimeValidationRequired, .callValidationBeforeCompute, row.2, 0⟩) ++
  ([.descriptorObjectValid, .backingHostAccessible, .backingCapacitySufficient,
      .backingLifetimeValid, .backingAccessPermitted,
      .noConflictingConcurrentAccess] : List RegionGuardPredicate).map
    (⟨·, .callerPreconditionUnproven, .callerThroughCompletion, [.output, .lhs, .rhs], 0⟩) ++
  ([.selectedImplementationEligible, .selectedImplementationResourcesAvailable,
      .selectedImplementationNumericalConformant] : List RegionGuardPredicate).map
    (⟨·, .dispatchExecutionObligationRetained, .dispatchBeforeExecution, [], 0⟩) ++
  ([.providerStateAndSynchronousCompletion,
      .mayWriteBeforeFailureNoRollback] : List RegionGuardPredicate).map
    (⟨·, .dispatchExecutionObligationRetained, .executionAndReturn, [], 0⟩)

/-- The ledger that the contract and the bindings of a call require, before it is encoded. -/
def requiredLedger (contract : Entries) (bindings : List Attribute) (stage : ℕ) :
    Except String RegionGuardLedger :=
  if bindings.length ≠ 3 ∨ 1 < stage then
    .error "guard ledger requires a per-call semantic contract and three bindings"
  else match nonemptyString (contract.get "site_id") with
    | none => .error "guard ledger requires a semantic source site"
    | some site => do
      let output ← boundRole contract bindings stage .output
      let lhs ← boundRole contract bindings stage .lhs
      let rhs ← boundRole contract bindings stage .rhs
      return ⟨site, stage, ⟨output.1, lhs.1, rhs.1⟩, requiredEntries ⟨output.2, lhs.2, rhs.2⟩⟩

def buildRegionGuardLedger (contract : Entries) (bindings : List Attribute) (stage : ℕ) :
    Except String Entries :=
  (requiredLedger contract bindings stage).map encode

def verifyRegionGuardLedger (encoded contract : Entries) (bindings : List Attribute) (stage : ℕ) :
    Except String Unit := do
  let _ ← decodeRegionGuardLedger encoded
  let expected ← buildRegionGuardLedger contract bindings stage
  if encoded = expected then return ()
  else .error "guard ledger differs from required source-scoped predicates, evidence or frontiers"

end Matcore.TwoGemm
