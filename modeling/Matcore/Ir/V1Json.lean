import Matcore.Ir.V1
import Matcore.Ir.Reader

/-!
# The JSON form of MatCore IR v1

`matcore_ir_v1_json.cpp`: the serializer, as the value that its writer calls spell out, and the
reader, which is a walk of its own.
-/

namespace Matcore.Ir.V1

open Json (asArray asObject)

def matcoreIrVersion : UInt32 := 1

def OperationKind.toString : OperationKind → String
  | .gemm => "gemm"

def DType.toString : DType → String
  | .f16 => "f16"
  | .bf16 => "bf16"
  | .f32 => "f32"
  | .f64 => "f64"
  | .i8 => "i8"
  | .i32 => "i32"

def Layout.toString : Layout → String
  | .rowMajorContiguous => "row_major_contiguous"
  | .columnMajorContiguous => "column_major_contiguous"
  | .strided => "strided"

def MemorySpace.toString : MemorySpace → String
  | .host => "host"
  | .device => "device"

def Mutability.toString : Mutability → String
  | .readOnly => "read"
  | .writeOnly => "write"
  | .readWrite => "read_write"

def ValueId.toString : ValueId → String
  | .output => "output"
  | .lhs => "lhs"
  | .rhs => "rhs"

def AliasRelation.toString : AliasRelation → String
  | .noAlias => "no_alias"

def Synchronization.toString : Synchronization → String
  | .synchronous => "synchronous"

def Target.toString : Target → String
  | .cpu => "cpu"

def Fallback.toString : Fallback → String
  | .error => "error"

def SemanticRequirement.toString : SemanticRequirement → String
  | .rank2Gemm => "rank2_gemm"
  | .f32Arithmetic => "f32_arithmetic"
  | .i32Arithmetic => "i32_arithmetic"
  | .hostAddressable => "host_addressable"
  | .synchronousExecution => "synchronous_execution"

def writeScalar (value : ScalarExpr) : Json :=
  match value.kind with
  | .static => .object [("kind", .string "static"), ("value", .uint value.value)]
  | .dynamic => .object [("kind", .string "dynamic"), ("symbol", .string value.symbol)]

def writeTensor (tensor : TensorValue) : Json :=
  .object
    [("role", .string tensor.id.toString),
      ("expression", .string tensor.sourceExpression),
      ("dtype", .string tensor.type.elementDtype.toString),
      ("rank", .uint tensor.type.rank.toUInt64),
      ("shape", .array (tensor.type.shape.map writeScalar)),
      ("strides", .array (tensor.type.strides.map writeScalar)),
      ("layout", .string tensor.type.layout.toString),
      ("mutability", .string tensor.mutability.toString),
      ("memory_space", .string tensor.type.memorySpace.toString),
      ("required_alignment_bytes", .uint tensor.type.requiredAlignmentBytes.toUInt64)]

def writeAlias (requirement : AliasRequirement) : Json :=
  .object
    [("relation", .string requirement.relation.toString),
      ("between",
        .array [.string requirement.first.toString, .string requirement.second.toString])]

def writeSource (source : SourceLocation) (callRange : SourceRange) : Json :=
  .object
    [("file", .string source.file),
      ("line", .uint source.line.toUInt64),
      ("column", .uint source.column.toUInt64),
      ("byte_offset", .uint source.offset),
      ("byte_range", writeRange callRange)]

def writeEffects (effects : Effects) : Json :=
  .object
    [("reads", .array (effects.reads.map fun value => .string value.toString)),
      ("writes", .array (effects.writes.map fun value => .string value.toString)),
      ("synchronization", .string effects.synchronization.toString)]

def writePolicy (policy : Policy) : Json :=
  .object
    [("target", .string policy.target.toString), ("fallback", .string policy.fallback.toString)]

def writeOperation (operation : Operation) : Json :=
  .object
    [("site_id", .string operation.siteId),
      ("kind", .string operation.kind.toString),
      ("canonical_callee", .string operation.canonicalCallee),
      ("source", writeSource operation.source operation.callRange),
      ("source_argument_ranges", .array (operation.argumentRanges.map writeRange)),
      ("output", writeTensor operation.output),
      ("operands", .array (operation.operands.map writeTensor)),
      ("accumulation_dtype", .string operation.accumulationDtype.toString),
      ("requirements",
        .array (operation.requirements.map fun requirement => .string requirement.toString)),
      ("alias_requirements", .array (operation.aliasRequirements.map writeAlias)),
      ("effects", writeEffects operation.effects),
      ("policy", writePolicy operation.policy)]

def writeModule (module : Module) : Json :=
  .object
    [("schema", .string "matcore.ir"),
      ("version", .uint matcoreIrVersion.toUInt64),
      ("producer", .string module.producer),
      ("translation_unit",
        .object
          [("identity", .string module.translationUnit),
            ("source_file", .string module.sourceFile)]),
      ("operations", .array (module.operations.map writeOperation))]

def serializeDeterministicJson (rapidjson : RapidJson) (module : Module) : Text :=
  rapidjson.document (writeModule module)

/-- The name of the IR in the messages of its readers. -/
def irName : String := "Matcore IR v1"

def readUint32 (object : Json) (name : String) : Except String UInt32 := do
  let wide ← readUint64 irName object name
  if wide > 0xFFFFFFFF then .error ("Matcore IR v1 integer exceeds uint32 range: " ++ name)
  else return wide.toUInt32

def parseScalar (encoded : Json) : Except String ScalarExpr := do
  let kind ← readString irName encoded "kind"
  if kind = "static" then
    exactMembers encoded ["kind", "value"] "scalar expression"
    let value ← readUint64 irName encoded "value"
    return { kind := .static, value }
  else if kind = "dynamic" then
    exactMembers encoded ["kind", "symbol"] "scalar expression"
    let symbol ← readString irName encoded "symbol"
    return { kind := .dynamic, symbol }
  else .error ("unknown Matcore IR v1 scalar expression kind: " ++ kind)

def parseNamedEnum {E : Type} (encoded : String) (choices : List (String × E)) (context : String) :
    Except String E :=
  match choices.lookup encoded with
  | some candidate => .ok candidate
  | none => .error ("unknown Matcore IR v1 " ++ context ++ ": " ++ encoded)

def valueIds : List (String × ValueId) := [("output", .output), ("lhs", .lhs), ("rhs", .rhs)]

def dtypes : List (String × DType) :=
  [("f16", .f16), ("bf16", .bf16), ("f32", .f32), ("f64", .f64), ("i8", .i8), ("i32", .i32)]

def layouts : List (String × Layout) :=
  [("row_major_contiguous", .rowMajorContiguous),
    ("column_major_contiguous", .columnMajorContiguous), ("strided", .strided)]

def mutabilities : List (String × Mutability) :=
  [("read", .readOnly), ("write", .writeOnly), ("read_write", .readWrite)]

def memorySpaces : List (String × MemorySpace) := [("host", .host), ("device", .device)]

def semanticRequirements : List (String × SemanticRequirement) :=
  [("rank2_gemm", .rank2Gemm), ("f32_arithmetic", .f32Arithmetic),
    ("i32_arithmetic", .i32Arithmetic), ("host_addressable", .hostAddressable),
    ("synchronous_execution", .synchronousExecution)]

def readEnum {E : Type} (object : Json) (name : String) (choices : List (String × E))
    (context : String) : Except String E := do
  let encoded ← readString irName object name
  parseNamedEnum encoded choices context

def readValueId (object : Json) (name : String) : Except String ValueId :=
  readEnum object name valueIds "value role"

def tensorMembers : List String :=
  ["role", "expression", "dtype", "rank", "shape", "strides", "layout", "mutability",
    "memory_space", "required_alignment_bytes"]

def parseTensor (encoded : Json) : Except String TensorValue := do
  exactMembers encoded tensorMembers "tensor value"
  let id ← readValueId encoded "role"
  let sourceExpression ← readString irName encoded "expression"
  let rank ← readUint32 encoded "rank"
  let requiredAlignmentBytes ← readUint32 encoded "required_alignment_bytes"
  let elementDtype ← readEnum encoded "dtype" dtypes "dtype"
  let layout ← readEnum encoded "layout" layouts "layout"
  let mutability ← readEnum encoded "mutability" mutabilities "mutability"
  let memorySpace ← readEnum encoded "memory_space" memorySpaces "memory space"
  -- both members are looked up before either is tested, so the message of the second one stays
  let encodedStrides ← requiredMember irName encoded "strides" asArray
  let encodedShape ← requiredMember irName encoded "shape" asArray
  let shape ← encodedShape.mapM parseScalar
  let strides ← encodedStrides.mapM parseScalar
  return {
    id, sourceExpression, mutability
    type := { elementDtype, rank, shape, strides, layout, memorySpace, requiredAlignmentBytes } }

/-- The items of an array that must all be strings of an enumeration. -/
def parseEnumItem {E : Type} (choices : List (String × E)) (notString context : String)
    (item : Json) : Except String E :=
  match item.asString with
  | some encoded => parseNamedEnum encoded choices context
  | none => .error notString

def parseValueIdArray (object : Json) (name : String) : Except String (List ValueId) := do
  let encoded ← requiredMember irName object name asArray
  encoded.mapM (parseEnumItem valueIds "Matcore IR v1 effect roles must be strings" "value role")

def parseSource (source : Json) : Except String (SourceLocation × SourceRange) := do
  exactMembers source ["file", "line", "column", "byte_offset", "byte_range"] "source location"
  let file ← readString irName source "file"
  let line ← readUint32 source "line"
  let column ← readUint32 source "column"
  let offset ← readUint64 irName source "byte_offset"
  let byteRange ← requiredMember irName source "byte_range" asObject
  let callRange ← parseRange irName byteRange
  return ({ file, offset, line, column }, callRange)

def parseAlias (item : Json) : Except String AliasRequirement := do
  exactMembers item ["relation", "between"] "alias requirement"
  let relation ← readEnum item "relation" [("no_alias", AliasRelation.noAlias)] "alias relation"
  match (item.member "between").bind asArray with
  | some [.string first, .string second] =>
    let first ← parseNamedEnum first valueIds "value role"
    let second ← parseNamedEnum second valueIds "value role"
    return { relation, first, second }
  | _ => .error "Matcore IR v1 alias between must contain exactly two roles"

def parseEffects (effects : Json) : Except String Effects := do
  exactMembers effects ["reads", "writes", "synchronization"] "effects"
  let reads ← parseValueIdArray effects "reads"
  let writes ← parseValueIdArray effects "writes"
  let synchronization ← readEnum effects "synchronization"
    [("synchronous", Synchronization.synchronous)] "synchronization"
  return { reads, writes, synchronization }

def parsePolicy (policy : Json) : Except String Policy := do
  exactMembers policy ["target", "fallback"] "policy"
  let target ← readEnum policy "target" [("cpu", Target.cpu)] "target"
  let fallback ← readEnum policy "fallback" [("error", Fallback.error)] "fallback"
  return { target, fallback }

def operationMembers : List String :=
  ["site_id", "kind", "canonical_callee", "source", "source_argument_ranges", "output", "operands",
    "accumulation_dtype", "requirements", "alias_requirements", "effects", "policy"]

def parseOperation (encoded : Json) : Except String Operation := do
  exactMembers encoded operationMembers "operation"
  let siteId ← readString irName encoded "site_id"
  let canonicalCallee ← readString irName encoded "canonical_callee"
  let kind ← readEnum encoded "kind" [("gemm", OperationKind.gemm)] "operation kind"
  let accumulationDtype ← readEnum encoded "accumulation_dtype" dtypes "dtype"
  let encodedSource ← requiredMember irName encoded "source" asObject
  let (source, callRange) ← parseSource encodedSource
  let encodedRanges ← requiredMember irName encoded "source_argument_ranges" asArray
  let argumentRanges ← encodedRanges.mapM (parseRange irName)
  let encodedOperands ← requiredMember irName encoded "operands" asArray
  let encodedOutput ← requiredMember irName encoded "output" asObject
  let output ← parseTensor encodedOutput
  let operands ← encodedOperands.mapM parseTensor
  let encodedRequirements ← requiredMember irName encoded "requirements" asArray
  let requirements ← encodedRequirements.mapM (parseEnumItem semanticRequirements
    "Matcore IR v1 semantic requirements must be strings" "semantic requirement")
  let encodedAliases ← requiredMember irName encoded "alias_requirements" asArray
  let aliasRequirements ← encodedAliases.mapM parseAlias
  let encodedEffects ← requiredMember irName encoded "effects" asObject
  let effects ← parseEffects encodedEffects
  let encodedPolicy ← requiredMember irName encoded "policy" asObject
  let policy ← parsePolicy encodedPolicy
  return {
    siteId, kind, canonicalCallee, source, callRange, argumentRanges, output, operands
    accumulationDtype, requirements, aliasRequirements, effects, policy }

def rootMembers : List String :=
  ["schema", "version", "producer", "translation_unit", "operations"]

/-- One item of the list of operations. -/
def parseOperationItem (item : Json) : Except String Operation :=
  if item.isObject then parseOperation item
  else .error "Matcore IR v1 operation must be an object"

/-- The walk of `parseAndVerifyJson` over a document, into the local `parsed`. -/
def parseModule (document : Json) : Except String Module := do
  failIf (!document.isObject) "Matcore IR root must be a JSON object"
  exactMembers document rootMembers "Matcore IR root"
  let schema ← readString irName document "schema"
  failIf (schema ≠ "matcore.ir") ("unsupported Matcore IR schema: " ++ schema)
  let version ← readUint32 document "version"
  failIf (version ≠ matcoreIrVersion) "unsupported Matcore IR version; expected version 1"
  let producer ← readString irName document "producer"
  let unit ← requiredMember irName document "translation_unit" asObject
  exactMembers unit ["identity", "source_file"] "translation unit"
  let translationUnit ← readString irName unit "identity"
  let sourceFile ← readString irName unit "source_file"
  let encodedOperations ← requiredMember irName document "operations" asArray
  let operations ← encodedOperations.mapM parseOperationItem
  return { translationUnit, sourceFile, producer, operations }

/-- What `parseAndVerifyJson` computes in its local `parsed`. -/
def parseVerified (rapidjson : RapidJson) (json : Text) : Except String Module := do
  let document ← rapidjson.parse json
  let parsed ← parseModule document
  match verify parsed with
  | .error message => .error ("Matcore IR v1 verifier rejected input: " ++ message)
  | .ok () => return parsed

/-- The state is the caller's module: it is emptied first, and assigned only at the end. -/
def parseAndVerifyJson (rapidjson : RapidJson) (json : Text) :
    StateM Module (Except String Unit) := do
  set ({} : Module)
  match parseVerified rapidjson json with
  | .error message => return .error message
  | .ok parsed =>
    set parsed
    return .ok ()

end Matcore.Ir.V1
