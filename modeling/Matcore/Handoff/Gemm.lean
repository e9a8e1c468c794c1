import Matcore.Handoff.Module

/-!
# The verifier of `mdsl.gemm`

`GemmOp::verify` of `MatcoreOps.cpp`, with what its definition asks of operands and attributes. Its
diagnostics have no reader, so the result is a truth value.
-/

namespace Matcore.Handoff

open Mlir (Bytes ascii)
open AttributeDict (Entries)
open TwoGemm (TensorType)

def isLowerHex (c : UInt8) : Bool := (48 ≤ c && c ≤ 57) || (97 ≤ c && c ≤ 102)

def isCanonicalSiteId (value : Bytes) : Bool :=
  value.length = 35 && (ascii "mc_").isPrefixOf value && (value.drop 3).all isLowerHex

def isAlpha (c : UInt8) : Bool := (65 ≤ c && c ≤ 90) || (97 ≤ c && c ≤ 122)

def isCanonicalSymbol : Bytes → Bool
  | [] => false
  | first :: rest =>
    (isAlpha first || first == 95) &&
      rest.all fun c => isAlpha c || (48 ≤ c && c ≤ 57) || c == 95

def isSha256Identity (value : Bytes) : Bool :=
  (ascii "sha256:").isPrefixOf value && (value.drop 7).length = 64 && (value.drop 7).all isLowerHex

def requireString (d : Entries Ty) (name expected : String) : Bool :=
  getString d name = some (ascii expected)

def requireBoolean (d : Entries Ty) (name : String) (expected : Bool) : Bool :=
  getInteger d name = some (1, if expected then 1 else 0)

def requireInteger (d : Entries Ty) (name : String) (expected : ℤ) : Bool :=
  getInteger d name = some (32, expected)

def verifyScalarExpression (scalar : Entries Ty) (dimension : Option ℕ) : Bool :=
  if requireString scalar "kind" "static" then
    exactNames scalar ["kind", "value"] &&
      match getInteger scalar "value", dimension with
      | some (64, value), some extent => 0 < value && value = extent
      | _, _ => false
  else if requireString scalar "kind" "dynamic" then
    exactNames scalar ["kind", "symbol"] &&
      match getString scalar "symbol", dimension with
      | some symbol, none => isCanonicalSymbol symbol
      | _, _ => false
  else false

def verifyStrideExpression (scalar : Entries Ty) : Bool :=
  if requireString scalar "kind" "static" then
    exactNames scalar ["kind", "value"] &&
      match getInteger scalar "value" with
      | some (64, value) => 0 < value
      | _ => false
  else if requireString scalar "kind" "dynamic" then
    exactNames scalar ["kind", "symbol"] &&
      match getString scalar "symbol" with
      | some symbol => isCanonicalSymbol symbol
      | none => false
  else false

def isPowerOfTwo (value : ℤ) : Bool := value.toNat &&& (value.toNat - 1) = 0

/-- The shape and stride expressions of one dimension. -/
def verifyDimension (shape stride : Attr) (dimension : Option ℕ) : Bool :=
  match shape, stride with
  | .dictionary shape, .dictionary stride =>
    verifyScalarExpression shape dimension && verifyStrideExpression stride
  | _, _ => false

def isUnitStride : Attr → Bool
  | .dictionary stride =>
    requireString stride "kind" "static" && getInteger stride "value" = some (64, 1)
  | _ => false

/-- The two shape expressions, where all that is asked of the tensor holds. -/
def tensorShape (semantics : Entries Ty) (type : TensorType) (role mutability : String) :
    Option (Attr × Attr) :=
  match getArray semantics "shape", getArray semantics "strides", type.shape with
  | some [rows, columns], some [leading, minor], [m, n] =>
    if exactNames semantics ["alignment_bytes", "alignment_contract", "layout", "memory_space",
          "mutability", "role", "shape", "source_expression", "strides"] &&
        requireString semantics "role" role && requireString semantics "mutability" mutability &&
        requireString semantics "memory_space" "host" &&
        requireString semantics "alignment_contract" "required_precondition" &&
        (getString semantics "source_expression").any (fun text => !text.isEmpty) &&
        type.element = .f32 && verifyDimension rows leading m && verifyDimension columns minor n &&
        requireString semantics "layout" "row_major_contiguous" && leading = columns &&
        isUnitStride minor &&
        (match getInteger semantics "alignment_bytes" with
          | some (64, alignment) => 4 ≤ alignment && isPowerOfTwo alignment
          | _ => false)
    then some (rows, columns) else none
  | _, _, _ => none

def verifyStringArray (values : Option (List Attr)) (expected : List String) : Bool :=
  match values with
  | none => false
  | some values =>
    values.length = expected.length &&
      (values.zip expected).all fun
        | (.string value _, name) => value = ascii name
        | _ => false

def verifyAliasing (aliasing : List Attr) : Bool :=
  aliasing.length = 2 &&
    (aliasing.zip ["lhs", "rhs"]).all fun
      | (.dictionary relation, second) =>
        exactNames relation ["contract", "first", "relation", "second"] &&
          requireString relation "contract" "required_precondition" &&
          requireString relation "first" "output" && requireString relation "relation" "no_alias" &&
          requireString relation "second" second
      | _ => false

inductive SemanticOriginKind where
  | explicitCall
  | recoveredSourceProvenGuardRequired
  | recoveredRecognizedRewriteRejected
  deriving DecidableEq

def verifyOrigin (origin : Entries Ty) : Option SemanticOriginKind :=
  if requireString origin "kind" "explicit_call" then
    if exactNames origin ["canonical_callee", "kind", "version"] &&
        requireInteger origin "version" 1 &&
        requireString origin "canonical_callee" "matcore::mdsl::gemm"
    then some .explicitCall else none
  else if requireString origin "kind" "recovered_cpp_loop" &&
      exactNames origin ["kind", "pattern", "permission", "version"] &&
      requireInteger origin "version" 1 &&
      requireString origin "pattern" "canonical-row-major-f32-gemm-v1" then
    if requireString origin "permission" "source_proven_guard_required" then
      some .recoveredSourceProvenGuardRequired
    else if requireString origin "permission" "recognized_rewrite_rejected" then
      some .recoveredRecognizedRewriteRejected
    else none
  else none

/-- The fields whose value depends on the origin. -/
def numericalFields : SemanticOriginKind → List (String × String)
  | .explicitCall =>
    [("profile", "explicit-gemm-f32-v1"), ("derivation", "explicit_edsl_contract"),
      ("reassociation", "within_k_reduction"), ("contraction", "allowed"),
      ("reduction_order", "implementation_defined_within_k"),
      ("nan", "preserve_classification_payload_order_unspecified"), ("signed_zero", "relaxed")]
  | .recoveredSourceProvenGuardRequired =>
    [("profile", "recovered-cpp-gemm-f32-source-proven-v1"),
      ("derivation", "effective_cpp_semantics"), ("reassociation", "within_k_reduction"),
      ("contraction", "allowed"), ("reduction_order", "implementation_defined_within_k"),
      ("nan", "preserve_classification_payload_order_unspecified"), ("signed_zero", "relaxed")]
  | .recoveredRecognizedRewriteRejected =>
    [("profile", "recovered-cpp-gemm-f32-strict-v1"), ("derivation", "effective_cpp_semantics"),
      ("reassociation", "forbidden"), ("contraction", "within_statement"),
      ("reduction_order", "increasing_k"), ("nan", "strict"), ("signed_zero", "preserve")]

/-- The checks against closed vocabularies that come first ask less of the fields above, and of the
others just this. -/
def verifyNumerical (numerical : Entries Ty) (origin : SemanticOriginKind) : Bool :=
  exactNames numerical ["accumulation_dtype", "approximate_math", "contraction", "derivation",
      "exception_status", "infinity", "inplace", "nan", "profile", "reassociation",
      "reduction_order", "rounding", "signed_zero", "subnormals", "trapping_exceptions"] &&
    [("accumulation_dtype", "f32"), ("infinity", "ieee_no_no_infs_assumption"),
      ("rounding", "nearest_ties_even"),
      ("exception_status", "incoming_not_preserved_postcall_unspecified"),
      ("subnormals", "ieee_gradual_ftz_daz_forbidden"),
      ("trapping_exceptions", "unsupported")].all (fun field =>
        requireString numerical field.1 field.2) &&
    requireBoolean numerical "approximate_math" false && requireBoolean numerical "inplace" false &&
    (numericalFields origin).all fun field => requireString numerical field.1 field.2

def verifyPolicy (policy : Entries Ty) (origin : SemanticOriginKind) : Bool :=
  exactNames policy ["fallback", "target"] &&
    if origin = .explicitCall then
      requireString policy "target" "cpu" && requireString policy "fallback" "error"
    else
      requireString policy "target" "generic" &&
        requireString policy "fallback" "preserve_original_cpp"

/-- The two ends of a nonempty range. -/
def verifyRange (range : Entries Ty) : Option (ℤ × ℤ) :=
  match getInteger range "begin", getInteger range "end" with
  | some (64, first), some (64, past) =>
    if exactNames range ["begin", "end"] && 0 ≤ first && first < past then some (first, past)
    else none
  | _, _ => none

def verifySourceLocation (provenance : Entries Ty) (location : Location) : Bool :=
  match getString provenance "file", getInteger provenance "line", getInteger provenance "column",
      getInteger provenance "offset" with
  | some file, some (64, line), some (64, column), some (64, offset) =>
    !file.isEmpty && 0 < line && line < 2 ^ 32 && 0 < column && column < 2 ^ 32 && 0 ≤ offset &&
      location = .fileLineCol file line.toNat column.toNat
  | _, _, _, _ => false

/-- The ranges are nonempty, in order, behind `previous` and not beyond `past`. -/
def verifyArgumentRanges (past : ℤ) : ℤ → List Attr → Bool
  | _, [] => true
  | previous, .dictionary range :: rest =>
    match verifyRange range with
    | some (first, last) => previous ≤ first && last ≤ past && verifyArgumentRanges past last rest
    | none => false
  | _, _ :: _ => false

def verifyExplicitProvenance (provenance : Entries Ty) (location : Location) : Bool :=
  exactNames provenance ["argument_ranges", "call_range", "column", "file", "kind", "line",
      "offset", "version"] &&
    requireString provenance "kind" "explicit_call" && requireInteger provenance "version" 1 &&
    verifySourceLocation provenance location &&
    match getDictionary provenance "call_range", getArray provenance "argument_ranges" with
    | some callRange, some argumentRanges =>
      (argumentRanges.length = 3 || argumentRanges.length = 4) &&
        match verifyRange callRange with
        | some (first, past) =>
          getInteger provenance "offset" = some (64, first) &&
            verifyArgumentRanges past first argumentRanges
        | none => false
    | _, _ => false

/-- The kind of a proof range that lies inside the source range. -/
def verifyProofRange (source : ℤ × ℤ) : Attr → Option Bytes
  | .dictionary range =>
    match getString range "kind", getInteger range "begin", getInteger range "end" with
    | some kind, some (64, first), some (64, past) =>
      if exactNames range ["begin", "end", "kind"] && isCanonicalSymbol kind && source.1 ≤ first &&
          first < past && past ≤ source.2 &&
          (kind ≠ ascii "outer_loop" || (first, past) = source)
      then some kind else none
    | _, _, _ => none
  | _ => none

def verifyRecoveredProvenance (provenance : Entries Ty) (location : Location) : Bool :=
  exactNames provenance ["column", "compilation_identity", "file", "kind", "line", "offset",
      "proof_ranges", "source_range", "source_snapshot", "version"] &&
    requireString provenance "kind" "recovered_cpp_loop" && requireInteger provenance "version" 1 &&
    verifySourceLocation provenance location &&
    (getString provenance "compilation_identity").any (fun text => !text.isEmpty) &&
    (getString provenance "source_snapshot").any isSha256Identity &&
    match getDictionary provenance "source_range", getArray provenance "proof_ranges" with
    | some sourceRange, some proofRanges =>
      match verifyRange sourceRange with
      | some source =>
        getInteger provenance "offset" = some (64, source.1) &&
          match proofRanges.mapM (verifyProofRange source) with
          | some kinds =>
            3 ≤ kinds.length && kinds.Nodup && kinds.contains (ascii "outer_loop") &&
              kinds.contains (ascii "accumulator_update") && kinds.contains (ascii "output_store")
          | none => false
      | none => false
    | _, _ => false

def verifyProvenance (provenance : Entries Ty) (origin : SemanticOriginKind)
    (location : Location) : Bool :=
  if origin = .explicitCall then verifyExplicitProvenance provenance location
  else verifyRecoveredProvenance provenance location

/-- The attributes that only the contract is about. -/
def verifyContract (d : Entries Ty) (location : Location) : Bool :=
  match getDictionary d "origin", getArray d "aliasing", getDictionary d "effects",
      getDictionary d "policy", getDictionary d "numerical", getDictionary d "provenance" with
  | some origin, some aliasing, some effects, some policy, some numerical, some provenance =>
    (match verifyOrigin origin with
      | some kind =>
        verifyPolicy policy kind && verifyNumerical numerical kind &&
          verifyProvenance provenance kind location
      | none => false) &&
    verifyStringArray (getArray d "semantic_requirements")
      ["rank2_gemm", "f32_arithmetic", "host_addressable", "synchronous_execution"] &&
    verifyAliasing aliasing && exactNames effects ["read_write", "reads", "writes"] &&
    verifyStringArray (getArray effects "reads") ["lhs", "rhs"] &&
    verifyStringArray (getArray effects "writes") ["output"] &&
    verifyStringArray (getArray effects "read_write") [] &&
    requireString d "synchronization" "synchronous"
  | _, _, _, _, _, _ => false

/-- The checks on the types, which share the symbolic extents M, K and N. -/
def verifyTensors (d : Entries Ty) (lhs rhs output result : TensorType) : Bool :=
  lhs.encoding.isNone && rhs.encoding.isNone && output.encoding.isNone && output = result &&
    match getDictionary d "lhs_semantics", getDictionary d "rhs_semantics",
        getDictionary d "output_semantics" with
    | some lhsSemantics, some rhsSemantics, some outputSemantics =>
      match tensorShape lhsSemantics lhs "lhs" "read", tensorShape rhsSemantics rhs "rhs" "read",
          tensorShape outputSemantics output "output" "write" with
      | some lhs, some rhs, some output =>
        lhs.1 = output.1 && lhs.2 = rhs.1 && rhs.2 = output.2
      | _, _, _ => false
    | _, _, _ => false

/-- `scope` are the types of the values before the operation. -/
def GemmOp.verify (scope : List Ty) (op : Op) : Bool :=
  match op.operands.map (fun value => (scope[value]?).bind Ty.asTensor), op.results with
  | [some lhs, some rhs, some output], [.tensor result] =>
    (getString op.attributes.entries "site_id").any isCanonicalSiteId &&
      getType op.attributes.entries "accumulation_type" = some .f32 && op.region.isEmpty &&
      verifyTensors op.attributes.entries lhs rhs output result &&
      verifyContract op.attributes.entries op.location
  | _, _ => false

end Matcore.Handoff
