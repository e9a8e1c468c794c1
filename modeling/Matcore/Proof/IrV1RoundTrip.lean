import Matcore.Ir.V1Json

/-!
# The JSON round trip of MatCore IR v1

Each part of a verified module is read back from what was written for it. The verifier matters
for one part only: of a scalar expression the serializer writes one of the two members, and the
verifier makes sure that the other one is empty.
-/

namespace Matcore.Ir.V1

open Except (ok_bind mapM_map bind_eq_ok then_eq_ok)
open Json (asArray asObject)

section Members

variable {object : Json} {name : String}

theorem readUint32_of_member {value : UInt32}
    (h : object.member name = some (.uint value.toUInt64)) :
    readUint32 object name = .ok value := by
  have hle : ¬ value.toUInt64 > 0xFFFFFFFF := by
    rw [gt_iff_lt, UInt64.lt_iff_toNat_lt, UInt32.toNat_toUInt64]
    exact Nat.not_lt.2 (Nat.le_of_lt_succ value.toNat_lt)
  unfold readUint32
  rw [readUint64_of_member h, ok_bind, if_neg hle, UInt32.toUInt32_toUInt64]
  rfl

theorem readEnum_of_member {E : Type} {choices : List (String × E)} {context encoded : String}
    {value : E} (h : object.member name = some (.string encoded))
    (hvalue : choices.lookup encoded = some value) :
    readEnum object name choices context = .ok value := by
  unfold readEnum parseNamedEnum
  rw [readString_of_member h, ok_bind, hvalue]

end Members

theorem valueIds_lookup (value : ValueId) : valueIds.lookup value.toString = some value := by
  cases value <;> rfl

theorem dtypes_lookup (value : DType) : dtypes.lookup value.toString = some value := by
  cases value <;> rfl

theorem layouts_lookup (value : Layout) : layouts.lookup value.toString = some value := by
  cases value <;> rfl

theorem mutabilities_lookup (value : Mutability) :
    mutabilities.lookup value.toString = some value := by
  cases value <;> rfl

theorem memorySpaces_lookup (value : MemorySpace) :
    memorySpaces.lookup value.toString = some value := by
  cases value <;> rfl

theorem semanticRequirements_lookup (value : SemanticRequirement) :
    semanticRequirements.lookup value.toString = some value := by
  cases value <;> rfl

variable {context : String}

theorem parseEnumItem_string {E : Type} {choices : List (String × E)} {notString encoded : String}
    {value : E} (hvalue : choices.lookup encoded = some value) :
    parseEnumItem choices notString context (.string encoded) = .ok value := by
  unfold parseEnumItem parseNamedEnum
  rw [Json.asString_string]
  simp only [hvalue]

/-- The member that the serializer leaves out has its default. -/
def ScalarExpr.Canonical (value : ScalarExpr) : Prop :=
  match value.kind with
  | .static => value.symbol = ""
  | .dynamic => value.value = 0

variable {value : ScalarExpr}

theorem parseScalar_writeScalar (h : value.Canonical) :
    parseScalar (writeScalar value) = .ok value := by
  obtain ⟨kind, literal, symbol⟩ := value
  cases kind with
  | static =>
    have hsymbol : symbol = "" := h
    subst hsymbol
    rfl
  | dynamic =>
    have hvalue : literal = 0 := h
    subst hvalue
    rfl

/-- Every dimension and stride is canonical. -/
def TensorType.Canonical (type : TensorType) : Prop :=
  (∀ value ∈ type.shape, value.Canonical) ∧ ∀ value ∈ type.strides, value.Canonical

theorem parseTensor_writeTensor {tensor : TensorValue} (h : tensor.type.Canonical) :
    parseTensor (writeTensor tensor) = .ok tensor := by
  let json := writeTensor tensor
  have hmembers : exactMembers json tensorMembers "tensor value" = .ok () := rfl
  have hrole : readValueId json "role" = .ok tensor.id :=
    readEnum_of_member rfl (valueIds_lookup tensor.id)
  have hexpression : readString irName json "expression" =
      .ok tensor.sourceExpression := readString_of_member rfl
  have hrank : readUint32 json "rank" = .ok tensor.type.rank := readUint32_of_member rfl
  have halignment : readUint32 json "required_alignment_bytes" =
      .ok tensor.type.requiredAlignmentBytes := readUint32_of_member rfl
  have hdtype : readEnum json "dtype" dtypes "dtype" =
      .ok tensor.type.elementDtype := readEnum_of_member rfl (dtypes_lookup _)
  have hlayout : readEnum json "layout" layouts "layout" =
      .ok tensor.type.layout := readEnum_of_member rfl (layouts_lookup _)
  have hmutability : readEnum json "mutability" mutabilities "mutability" =
      .ok tensor.mutability := readEnum_of_member rfl (mutabilities_lookup _)
  have hspace : readEnum json "memory_space" memorySpaces "memory space" =
      .ok tensor.type.memorySpace := readEnum_of_member rfl (memorySpaces_lookup _)
  have hstrides : requiredMember irName json "strides" asArray =
      .ok (tensor.type.strides.map writeScalar) := requiredMember_of_member rfl rfl
  have hshape : requiredMember irName json "shape" asArray =
      .ok (tensor.type.shape.map writeScalar) := requiredMember_of_member rfl rfl
  have hstrides' := mapM_map fun value hv => parseScalar_writeScalar (h.2 value hv)
  have hshape' := mapM_map fun value hv => parseScalar_writeScalar (h.1 value hv)
  change parseTensor json = _
  unfold parseTensor
  simp only [hmembers, hrole, hexpression, hrank, halignment, hdtype, hlayout, hmutability, hspace,
    hstrides, hshape, hstrides', hshape', ok_bind]
  rfl

theorem parseSource_writeSource (source : SourceLocation) (callRange : SourceRange) :
    parseSource (writeSource source callRange) = .ok (source, callRange) := by
  let json := writeSource source callRange
  have hmembers : exactMembers json
      ["file", "line", "column", "byte_offset", "byte_range"] "source location" = .ok () := rfl
  have hfile : readString irName json "file" = .ok source.file := readString_of_member rfl
  have hline : readUint32 json "line" = .ok source.line := readUint32_of_member rfl
  have hcolumn : readUint32 json "column" = .ok source.column := readUint32_of_member rfl
  have hoffset : readUint64 irName json "byte_offset" =
      .ok source.offset := readUint64_of_member rfl
  have hrange : requiredMember irName json "byte_range" asObject =
      .ok (writeRange callRange) := requiredMember_of_member rfl rfl
  change parseSource json = _
  unfold parseSource
  simp only [hmembers, hfile, hline, hcolumn, hoffset, hrange, parseRange_writeRange, ok_bind]
  rfl

theorem parseAlias_writeAlias (requirement : AliasRequirement) :
    parseAlias (writeAlias requirement) = .ok requirement := by
  obtain ⟨⟨⟩, first, second⟩ := requirement
  cases first <;> cases second <;> rfl

theorem parseEffects_writeEffects (effects : Effects) :
    parseEffects (writeEffects effects) = .ok effects := by
  have hmembers : exactMembers (writeEffects effects) ["reads", "writes", "synchronization"]
      "effects" = .ok () := rfl
  have harray {name : String} {values : List ValueId}
      (h : (writeEffects effects).member name =
        some (.array (values.map fun value => .string value.toString))) :
      parseValueIdArray (writeEffects effects) name = .ok values := by
    have hread : requiredMember irName (writeEffects effects) name asArray =
        .ok (values.map fun value => .string value.toString) := requiredMember_of_member h rfl
    unfold parseValueIdArray
    rw [hread, ok_bind]
    exact mapM_map fun value _ => parseEnumItem_string (valueIds_lookup value)
  have hreads : parseValueIdArray (writeEffects effects) "reads" = .ok effects.reads := harray rfl
  have hwrites : parseValueIdArray (writeEffects effects) "writes" = .ok effects.writes :=
    harray rfl
  have hsynchronization : readEnum (writeEffects effects) "synchronization"
      [("synchronous", Synchronization.synchronous)] "synchronization" =
      .ok effects.synchronization := by
    cases hs : effects.synchronization
    exact readEnum_of_member rfl rfl
  unfold parseEffects
  simp only [hmembers, hreads, hwrites, hsynchronization, ok_bind]
  rfl

theorem parsePolicy_writePolicy (policy : Policy) :
    parsePolicy (writePolicy policy) = .ok policy := by
  rfl

/-- Every tensor of the operation is canonical. -/
def Operation.Canonical (operation : Operation) : Prop :=
  operation.output.type.Canonical ∧ ∀ operand ∈ operation.operands, operand.type.Canonical

variable {operation : Operation}

theorem parseOperation_writeOperation (h : operation.Canonical) :
    parseOperation (writeOperation operation) = .ok operation := by
  let json := writeOperation operation
  have hmembers : exactMembers json operationMembers "operation" = .ok () := rfl
  have hsite : readString irName json "site_id" = .ok operation.siteId := readString_of_member rfl
  have hcallee : readString irName json "canonical_callee" =
      .ok operation.canonicalCallee := readString_of_member rfl
  have hkind : readEnum json "kind" [("gemm", OperationKind.gemm)]
      "operation kind" = .ok operation.kind := by
    cases hk : operation.kind
    exact readEnum_of_member rfl rfl
  have haccumulation : readEnum json "accumulation_dtype" dtypes "dtype" =
      .ok operation.accumulationDtype := readEnum_of_member rfl (dtypes_lookup _)
  have hsource : requiredMember irName json "source" asObject =
      .ok (writeSource operation.source operation.callRange) := requiredMember_of_member rfl rfl
  have hranges : requiredMember irName json "source_argument_ranges"
      asArray = .ok (operation.argumentRanges.map writeRange) :=
    requiredMember_of_member rfl rfl
  have hranges' : (operation.argumentRanges.map writeRange).mapM (parseRange irName) =
      .ok operation.argumentRanges := mapM_map fun range _ => parseRange_writeRange irName range
  have hoperands : requiredMember irName json "operands" asArray =
      .ok (operation.operands.map writeTensor) := requiredMember_of_member rfl rfl
  have hoperands' := mapM_map fun operand hv => parseTensor_writeTensor (h.2 operand hv)
  have houtput : requiredMember irName json "output" asObject =
      .ok (writeTensor operation.output) := requiredMember_of_member rfl rfl
  have houtput' := parseTensor_writeTensor h.1
  have hrequirements : requiredMember irName json "requirements"
      asArray =
      .ok (operation.requirements.map fun requirement => .string requirement.toString) :=
    requiredMember_of_member rfl rfl
  have hrequirements' : (operation.requirements.map fun requirement =>
      Json.string requirement.toString).mapM (parseEnumItem semanticRequirements
        "Matcore IR v1 semantic requirements must be strings" "semantic requirement") =
      .ok operation.requirements :=
    mapM_map fun value _ => parseEnumItem_string (semanticRequirements_lookup value)
  have haliases : requiredMember irName json "alias_requirements"
      asArray = .ok (operation.aliasRequirements.map writeAlias) :=
    requiredMember_of_member rfl rfl
  have haliases' : (operation.aliasRequirements.map writeAlias).mapM parseAlias =
      .ok operation.aliasRequirements :=
    mapM_map fun requirement _ => parseAlias_writeAlias requirement
  have heffects : requiredMember irName json "effects" asObject =
      .ok (writeEffects operation.effects) := requiredMember_of_member rfl rfl
  have hpolicy : requiredMember irName json "policy" asObject =
      .ok (writePolicy operation.policy) := requiredMember_of_member rfl rfl
  change parseOperation json = _
  unfold parseOperation
  simp only [hmembers, hsite, hcallee, hkind, haccumulation, hsource, hranges, hranges', hoperands,
    hoperands', houtput, houtput', hrequirements, hrequirements', haliases, haliases', heffects,
    hpolicy, parseSource_writeSource, parseEffects_writeEffects, parsePolicy_writePolicy, ok_bind]
  rfl

variable {module : Module}

theorem parseModule_writeModule (h : ∀ operation ∈ module.operations, operation.Canonical) :
    parseModule (writeModule module) = .ok module := by
  have hoperations : requiredMember irName (writeModule module) "operations" asArray =
      .ok (module.operations.map writeOperation) := requiredMember_of_member rfl rfl
  have hitem {operation : Operation} (hv : operation ∈ module.operations) :
      parseOperationItem (writeOperation operation) = .ok operation := by
    have hobject : (writeOperation operation).isObject = true := rfl
    unfold parseOperationItem
    rw [if_pos hobject]
    exact parseOperation_writeOperation (h operation hv)
  have hoperations' := mapM_map fun operation hv => hitem hv
  have hobject : failIf (!(writeModule module).isObject) "Matcore IR root must be a JSON object" =
      .ok () := rfl
  have hmembers : exactMembers (writeModule module) rootMembers "Matcore IR root" = .ok () := rfl
  have hschema : readString irName (writeModule module) "schema" = .ok "matcore.ir" :=
    readString_of_member rfl
  have hversion : readUint32 (writeModule module) "version" = .ok matcoreIrVersion :=
    readUint32_of_member rfl
  have hproducer : readString irName (writeModule module) "producer" = .ok module.producer :=
    readString_of_member rfl
  unfold parseModule
  simp only [hobject, hmembers, hschema, hversion, hproducer, hoperations, hoperations', ok_bind]
  rfl

theorem canonical_of_verifyScalar (h : verifyScalar value context = .ok ()) : value.Canonical := by
  unfold verifyScalar at h
  unfold ScalarExpr.Canonical
  cases hkind : value.kind with
  | static =>
    rw [hkind] at h
    rw [failIf_eq_ok, Bool.or_eq_false_iff, Bool.not_eq_false', String.isEmpty_iff] at h
    exact h.2
  | dynamic =>
    rw [hkind] at h
    rw [failIf_eq_ok, Bool.or_eq_false_iff, decide_eq_false_iff_not, not_not] at h
    exact h.1

theorem canonical_of_verifyTensorType {type : TensorType}
    (h : verifyTensorType type context = .ok ()) : type.Canonical := by
  unfold verifyTensorType at h
  split at h
  · rename_i shape0 shape1 stride0 stride1 _ hshape hstrides
    obtain ⟨⟨⟩, hshape0, h⟩ := bind_eq_ok h
    obtain ⟨⟨⟩, hstride0, h⟩ := bind_eq_ok h
    obtain ⟨⟨⟩, hshape1, h⟩ := bind_eq_ok h
    obtain ⟨⟨⟩, hstride1, -⟩ := bind_eq_ok h
    refine ⟨?_, ?_⟩
    · rw [hshape]
      intro value hv
      rcases List.mem_pair.1 hv with rfl | rfl
      · exact canonical_of_verifyScalar hshape0
      · exact canonical_of_verifyScalar hshape1
    · rw [hstrides]
      intro value hv
      rcases List.mem_pair.1 hv with rfl | rfl
      · exact canonical_of_verifyScalar hstride0
      · exact canonical_of_verifyScalar hstride1
  · cases h

theorem canonical_of_verifyValue {value : TensorValue} {expectedId : ValueId}
    {expectedMutability : Mutability}
    (h : verifyValue value expectedId expectedMutability context = .ok ()) :
    value.type.Canonical := by
  unfold verifyValue at h
  replace h := then_eq_ok (then_eq_ok (then_eq_ok h))
  exact canonical_of_verifyTensorType h

theorem canonical_of_verifyOperation (h : verifyOperation operation = .ok ()) :
    operation.Canonical := by
  unfold verifyOperation at h
  obtain ⟨⟨⟩, houtput, h⟩ := bind_eq_ok h
  refine ⟨canonical_of_verifyValue houtput, ?_⟩
  split at h
  · rename_i first second hoperands
    obtain ⟨⟨⟩, hfirst, h⟩ := bind_eq_ok h
    obtain ⟨⟨⟩, hsecond, -⟩ := bind_eq_ok h
    rw [hoperands]
    intro operand hv
    rcases List.mem_pair.1 hv with rfl | rfl
    · exact canonical_of_verifyValue hfirst
    · exact canonical_of_verifyValue hsecond
  · cases h

theorem canonical_of_verifyOperations {sourceFile : String} {siteIds : List String}
    {previousCallEnd : UInt64} {operations : List Operation}
    (h : verifyOperations sourceFile siteIds previousCallEnd operations = .ok ()) :
    ∀ operation ∈ operations, operation.Canonical := by
  induction operations generalizing siteIds previousCallEnd with
  | nil => exact fun _ hv => absurd hv List.not_mem_nil
  | cons operation rest ih =>
    unfold verifyOperations at h
    replace h := then_eq_ok (then_eq_ok (then_eq_ok h))
    obtain ⟨⟨⟩, hoperation, h⟩ := bind_eq_ok h
    refine List.forall_mem_cons.2 ⟨?_, ih h⟩
    exact canonical_of_verifyOperation hoperation

theorem canonical_of_verify (h : verify module = .ok ()) :
    ∀ operation ∈ module.operations, operation.Canonical := by
  unfold verify at h
  replace h := then_eq_ok (then_eq_ok (then_eq_ok h))
  exact canonical_of_verifyOperations h

section RoundTrip

variable {rapidjson : RapidJson} {module : Module} {json : Text}

theorem parseVerified_eq_ok :
    parseVerified rapidjson json = .ok module ↔
      ∃ document, rapidjson.parse json = .ok document ∧ parseModule document = .ok module ∧
        verify module = .ok () := by
  unfold parseVerified
  constructor
  · intro h
    obtain ⟨document, hdocument, h⟩ := bind_eq_ok h
    obtain ⟨parsed, hparsed, h⟩ := bind_eq_ok h
    split at h
    · cases h
    · rename_i hverify
      cases h
      exact ⟨document, hdocument, hparsed, hverify⟩
  · rintro ⟨document, hdocument, hparsed, hverify⟩
    rw [hdocument, ok_bind, hparsed, ok_bind, hverify]
    rfl

theorem parseAndVerifyJson_of_ok (h : parseVerified rapidjson json = .ok module) (before : Module) :
    parseAndVerifyJson rapidjson json before = (.ok (), module) := by
  unfold parseAndVerifyJson
  rw [h]
  rfl

theorem parseAndVerifyJson_of_error {message : String}
    (h : parseVerified rapidjson json = .error message) (before : Module) :
    parseAndVerifyJson rapidjson json before = (.error message, {}) := by
  unfold parseAndVerifyJson
  rw [h]
  rfl

theorem parse_serialize (h : verify module = .ok ())
    (hfaithful : rapidjson.FaithfulOn (writeModule module)) (before : Module) :
    parseAndVerifyJson rapidjson (serializeDeterministicJson rapidjson module) before =
      (.ok (), module) := by
  refine parseAndVerifyJson_of_ok (parseVerified_eq_ok.2 ?_) before
  exact ⟨writeModule module, hfaithful, parseModule_writeModule (canonical_of_verify h), h⟩

theorem verify_of_parsed {before : Module}
    (h : parseAndVerifyJson rapidjson json before = (.ok (), module)) : verify module = .ok () := by
  cases hparsed : parseVerified rapidjson json with
  | error message =>
    rw [parseAndVerifyJson_of_error hparsed] at h
    cases h
  | ok parsed =>
    rw [parseAndVerifyJson_of_ok hparsed] at h
    cases h
    obtain ⟨-, -, -, hverify⟩ := parseVerified_eq_ok.1 hparsed
    exact hverify

/-- **The round trip.** Printing and reading recovers every verified module, and every module
that was read from a document, when RapidJSON is faithful on the value in between. -/
theorem json_round_trip (rapidjson : RapidJson) :
    (∀ module before, verify module = .ok () → rapidjson.FaithfulOn (writeModule module) →
      parseAndVerifyJson rapidjson (serializeDeterministicJson rapidjson module) before =
        (.ok (), module)) ∧
    ∀ json before before' module, parseAndVerifyJson rapidjson json before = (.ok (), module) →
      rapidjson.FaithfulOn (writeModule module) →
      parseAndVerifyJson rapidjson (serializeDeterministicJson rapidjson module) before' =
        (.ok (), module) := by
  constructor
  · intro module before h hfaithful
    exact parse_serialize h hfaithful before
  · intro json before before' module h hfaithful
    exact parse_serialize (verify_of_parsed h) hfaithful before'

end RoundTrip

/-- One call on bfloat16 matrices, the right one in columns; the inner extent is static. -/
def mixedGemm : Module where
  translationUnit := "unit"
  sourceFile := "unit.mdsl"
  producer := "clang-libtooling-v1"
  operations := [{
    siteId := "mc_00000000000000000000000000000000"
    canonicalCallee := "matcore::mdsl::gemm"
    source := { file := "unit.mdsl", offset := 4, line := 1, column := 5 }
    callRange := { first := 4, past := 15 }
    argumentRanges := [{ first := 9, past := 10 }, { first := 11, past := 12 },
      { first := 13, past := 14 }]
    output :=
      { id := .output, sourceExpression := "c", mutability := .writeOnly
        type :=
          { shape := [{ symbol := "m" }, { symbol := "n" }]
            strides := [{ symbol := "n" }, .staticValue 1] } }
    operands :=
      [{ id := .lhs, sourceExpression := "a"
         type :=
          { elementDtype := .bf16
            shape := [{ symbol := "m" }, .staticValue 64]
            strides := [.staticValue 64, .staticValue 1] } },
       { id := .rhs, sourceExpression := "b"
         type :=
          { elementDtype := .bf16
            layout := .columnMajorContiguous
            shape := [.staticValue 64, { symbol := "n" }]
            strides := [.staticValue 1, .staticValue 64] } }]
    requirements := [.rank2Gemm, .f32Arithmetic, .hostAddressable, .synchronousExecution]
    aliasRequirements := [⟨.noAlias, .output, .lhs⟩, ⟨.noAlias, .output, .rhs⟩]
    effects := { reads := [.lhs, .rhs], writes := [.output] } }]

/-- Printed and read back, and read from a text that is not the printed one. -/
theorem json_round_trip_mixedGemm :
    let rapidjson := rapidjsonOn (writeModule mixedGemm)
    let printed := serializeDeterministicJson rapidjson mixedGemm
    parseAndVerifyJson rapidjson printed {} = (.ok (), mixedGemm) ∧
      ∃ module, parseAndVerifyJson rapidjson (32 :: printed) {} = (.ok (), module) ∧
        parseAndVerifyJson rapidjson (serializeDeterministicJson rapidjson module) {} =
          (.ok (), module) := by
  intro rapidjson printed
  have hverify : verify mixedGemm = .ok () := by decide
  have hfaithful := rapidjsonOn_faithful (writeModule mixedGemm)
  have hread : parseAndVerifyJson rapidjson (32 :: printed) {} = (.ok (), mixedGemm) := by
    refine parseAndVerifyJson_of_ok (parseVerified_eq_ok.2 ?_) {}
    exact ⟨_, if_pos (.inr rfl), parseModule_writeModule (canonical_of_verify hverify), hverify⟩
  obtain ⟨hprinted, hagain⟩ := json_round_trip rapidjson
  exact ⟨hprinted mixedGemm {} hverify hfaithful, mixedGemm,
    hread, hagain _ {} {} mixedGemm hread hfaithful⟩

end Matcore.Ir.V1
