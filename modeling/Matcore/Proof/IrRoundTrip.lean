import Matcore.Proof.IrFailedParse

/-!
# The JSON round trip of MatCore IR v0

The writer spells out every field that the reader looks at, so each part of a module is read back
as it was written, verified or not; the verifier only decides whether the module is kept.
-/

namespace Matcore.Ir

open Except (ok_bind mapM_map)

theorem parseMatrix_writeMatrixValue (value : MatrixValue) :
    parseMatrix (writeMatrixValue value) = .ok value := by
  let json := writeMatrixValue value
  have hmembers : exactMembers json matrixMembers "matrix value" = .ok () := rfl
  have hrole : readString irName json "role" = .ok value.role := readString_of_member rfl
  have hexpression : readString irName json "expression" =
      .ok value.expression := readString_of_member rfl
  have hmutability : readString irName json "mutability" =
      .ok value.mutability := readString_of_member rfl
  have hdtype : readString irName json "dtype" = .ok "f32" := readString_of_member rfl
  have hlayout : readString irName json "layout" =
      .ok "row_major_contiguous" := readString_of_member rfl
  have hspace : readString irName json "memory_space" = .ok "host" := readString_of_member rfl
  have hrank : hasUint json "rank" 2 = true := rfl
  have hshape : exactStringArray json "shape" ["?", "?"] = .ok () := rfl
  have hstrides : exactStringArray json "strides" ["dynamic-columns", "1"] = .ok () := rfl
  change parseMatrix json = _
  unfold parseMatrix
  simp only [hmembers, hrole, hexpression, hmutability, hdtype, hlayout, hspace, hrank, hshape,
    hstrides, ok_bind]
  rfl

theorem narrow_toUInt64 (value : UInt32) : ¬ value.toUInt64 > 0xFFFFFFFF := by
  rw [gt_iff_lt, UInt64.lt_iff_toNat_lt, UInt32.toNat_toUInt64]
  exact Nat.not_lt.2 (Nat.le_of_lt_succ value.toNat_lt)

theorem parseSource_writeSource (source : SourceLocation) (callRange : SourceRange) :
    parseSource (writeSource source callRange) = .ok (source, callRange) := by
  let json := writeSource source callRange
  have hmembers : exactMembers json
      ["file", "line", "column", "byte_offset", "byte_range"] "source location" = .ok () := rfl
  have hfile : readString irName json "file" = .ok source.file := readString_of_member rfl
  have hoffset : readUint64 irName json "byte_offset" =
      .ok source.offset := readUint64_of_member rfl
  have hline : readUint64 irName json "line" = .ok source.line.toUInt64 := readUint64_of_member rfl
  have hcolumn : readUint64 irName json "column" =
      .ok source.column.toUInt64 := readUint64_of_member rfl
  have hrange : requiredMember irName json "byte_range" Json.asObject =
      .ok (writeRange callRange) := requiredMember_of_member rfl rfl
  -- both numbers were 32 bits wide
  have hfits : failIf (source.line.toUInt64 > 0xFFFFFFFF || source.column.toUInt64 > 0xFFFFFFFF)
      "source line or column exceeds the v0 range" = .ok () := by
    rw [failIf_eq_ok, decide_eq_false (narrow_toUInt64 source.line),
      decide_eq_false (narrow_toUInt64 source.column)]
    rfl
  change parseSource json = _
  unfold parseSource
  simp only [hmembers, hfile, hoffset, hline, hcolumn, hfits, hrange, parseRange_writeRange,
    UInt32.toUInt32_toUInt64, ok_bind]
  rfl

theorem parseOperation_writeOperation (operation : Operation) :
    parseOperation (writeOperation operation) = .ok operation := by
  let json := writeOperation operation
  have hobject : failIf (!json.isObject)
      "Matcore IR operation must be an object" = .ok () := rfl
  have hmembers : exactMembers json operationMembers "operation" = .ok () := rfl
  have hsite : readString irName json "site_id" = .ok operation.siteId := readString_of_member rfl
  have hkind : readString irName json "kind" = .ok operation.kind := readString_of_member rfl
  have hcallee : readString irName json "canonical_callee" =
      .ok operation.canonicalCallee := readString_of_member rfl
  have hsource : requiredMember irName json "source" Json.asObject =
      .ok (writeSource operation.source operation.callRange) := requiredMember_of_member rfl rfl
  have hranges : requiredMember irName json "source_argument_ranges"
      Json.asArray = .ok (operation.argumentRanges.map writeRange) :=
    requiredMember_of_member rfl rfl
  have hranges' : (operation.argumentRanges.map writeRange).mapM (parseRange irName) =
      .ok operation.argumentRanges :=
    mapM_map fun range _ => parseRange_writeRange irName range
  have houtput : requiredMember irName json "output" Json.asObject =
      .ok (writeMatrixValue operation.output) := requiredMember_of_member rfl rfl
  have hoperands : requiredMember irName json "operands" Json.asArray =
      .ok (operation.operands.map writeMatrixValue) := requiredMember_of_member rfl rfl
  have hoperands' : (operation.operands.map writeMatrixValue).mapM parseMatrix =
      .ok operation.operands :=
    mapM_map fun operand _ => parseMatrix_writeMatrixValue operand
  have hpolicy : requiredMember irName json "policy" Json.asObject =
      .ok (.object [("target", .string operation.target),
        ("fallback", .string operation.fallback)]) := requiredMember_of_member rfl rfl
  have haliases : parseAliasRequirements json = .ok () := rfl
  have heffects : parseEffects json = .ok () := rfl
  change parseOperation json = _
  unfold parseOperation
  simp only [hobject, hmembers, hsite, hkind, hcallee, hsource, parseSource_writeSource, hranges,
    hranges', houtput, parseMatrix_writeMatrixValue, hoperands, hoperands', haliases, heffects,
    hpolicy, ok_bind]
  rfl

theorem fillModule_writeModule (module : Module) :
    fillModule (writeModule module) {} = (.ok (), module) := by
  have hproducer : readProducer (writeModule module) = .ok module.producer :=
    readString_of_member rfl
  have hidentity : readIdentity (writeModule module) = .ok module.translationUnit := rfl
  have hsource : readSourceFile (writeModule module) = .ok module.sourceFile := rfl
  have hoperations : readOperations (writeModule module) =
      .ok (module.operations.map writeOperation) := requiredMember_of_member rfl rfl
  have hparsed : (module.operations.map writeOperation).mapM parseOperation =
      .ok module.operations :=
    mapM_map fun operation _ => parseOperation_writeOperation operation
  rw [fillModule_eq, hproducer, hidentity, hsource, hoperations]
  exact parseOperations_ok hparsed _

variable {rapidjson : RapidJson}

theorem parse_serialize {module : Module} (h : verify module = .ok ())
    (hfaithful : rapidjson.FaithfulOn (writeModule module)) (before : Module) :
    parseAndVerifyJson rapidjson (serializeDeterministicJson rapidjson module) before =
      (.ok (), module) := by
  have hroot : checkRoot (writeModule module) = .ok () := rfl
  unfold serializeDeterministicJson
  rw [parse_of_root hfaithful hroot, fillModule_writeModule]
  dsimp only
  rw [h]

theorem verify_of_parsed {json : Text} {before module : Module}
    (h : parseAndVerifyJson rapidjson json before = (.ok (), module)) :
    verify module = .ok () := by
  cases hparse : rapidjson.parse json with
  | error message =>
    rw [parse_of_unread hparse] at h
    cases h
  | ok document =>
  cases hroot : checkRoot document with
  | error message =>
    rw [parse_of_badRoot hparse hroot] at h
    cases h
  | ok _ =>
  rw [parse_of_root hparse hroot] at h
  rcases hfill : fillModule document {} with ⟨_ | _, left⟩
  · rw [hfill] at h
    cases h
  · rw [hfill] at h
    cases hverify : verify left with
    | error message =>
      simp only [hverify] at h
      cases h
    | ok _ =>
      simp only [hverify] at h
      cases h
      exact hverify

/-- **The round trip.** Printing and reading recovers every verified module, and every module
that was read from a document, when RapidJSON is faithful on the value in between; printing what
was read back gives the same document. -/
theorem v0_json_round_trip (rapidjson : RapidJson) :
    (∀ module before, verify module = .ok () → rapidjson.FaithfulOn (writeModule module) →
      parseAndVerifyJson rapidjson (serializeDeterministicJson rapidjson module) before =
        (.ok (), module)) ∧
    ∀ json before before' module, parseAndVerifyJson rapidjson json before = (.ok (), module) →
      rapidjson.FaithfulOn (writeModule module) →
      parseAndVerifyJson rapidjson (serializeDeterministicJson rapidjson module) before' =
        (.ok (), module) := by
  constructor
  · intro module before h hfaithful
    exact parse_serialize h hfaithful before
  · intro json before before' module h hfaithful
    exact parse_serialize (verify_of_parsed h) hfaithful before'

/-- A unit with one call. -/
def oneGemm : Module where
  translationUnit := "unit"
  sourceFile := "unit.mdsl"
  producer := "clang-libtooling-v1"
  operations := [{
    siteId := "mc_00000000000000000000000000000000"
    kind := "gemm"
    canonicalCallee := "matcore::mdsl::gemm"
    source := { file := "unit.mdsl", offset := 4, line := 1, column := 5 }
    callRange := { first := 4, past := 15 }
    argumentRanges := [{ first := 9, past := 10 }, { first := 11, past := 12 },
      { first := 13, past := 14 }]
    output := ⟨"output", "out", "write"⟩
    operands := [⟨"lhs", "a", "read"⟩, ⟨"rhs", "b", "read"⟩]
    target := "cpu"
    fallback := "error" }]

/-- Printed and read back, and read from a text that is not the printed one. -/
theorem v0_json_round_trip_oneGemm :
    let rapidjson := rapidjsonOn (writeModule oneGemm)
    let printed := serializeDeterministicJson rapidjson oneGemm
    parseAndVerifyJson rapidjson printed {} = (.ok (), oneGemm) ∧
      ∃ module, parseAndVerifyJson rapidjson (32 :: printed) {} = (.ok (), module) ∧
        parseAndVerifyJson rapidjson (serializeDeterministicJson rapidjson module) {} =
          (.ok (), module) := by
  intro rapidjson printed
  have hverify : verify oneGemm = .ok () := by decide
  have hfaithful := rapidjsonOn_faithful (writeModule oneGemm)
  have hparse : rapidjson.parse (32 :: printed) = .ok (writeModule oneGemm) := if_pos (.inr rfl)
  have hread : parseAndVerifyJson rapidjson (32 :: printed) {} = (.ok (), oneGemm) := by
    rw [parse_of_root hparse rfl, fillModule_writeModule]
    dsimp only
    rw [hverify]
  obtain ⟨hprinted, hagain⟩ := v0_json_round_trip rapidjson
  exact ⟨hprinted oneGemm {} hverify hfaithful, oneGemm,
    hread, hagain _ {} {} oneGemm hread hfaithful⟩

end Matcore.Ir
