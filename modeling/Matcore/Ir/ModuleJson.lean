import Matcore.Ir.Reader

/-!
# The JSON form of MatCore IR v0

The serializer of `matcore_ir.cpp`, as the value that its writer calls spell out, and
`parseAndVerifyJson`, which unlike that of v1 fills the caller's module while it walks the
document.
-/

namespace Matcore.Ir

open Json (asArray asObject)

def matcoreIrVersion : UInt64 := 0

/-- The name of the IR in the messages of its readers. -/
def irName : String := "Matcore IR"

def writeMatrixValue (value : MatrixValue) : Json :=
  .object
    [("role", .string value.role),
      ("expression", .string value.expression),
      ("dtype", .string "f32"),
      ("rank", .uint 2),
      ("shape", .array [.string "?", .string "?"]),
      ("strides", .array [.string "dynamic-columns", .string "1"]),
      ("layout", .string "row_major_contiguous"),
      ("mutability", .string value.mutability),
      ("memory_space", .string "host")]

/-- The location of the call with its range. -/
def writeSource (source : SourceLocation) (callRange : SourceRange) : Json :=
  .object
    [("file", .string source.file),
      ("line", .uint source.line.toUInt64),
      ("column", .uint source.column.toUInt64),
      ("byte_offset", .uint source.offset),
      ("byte_range", writeRange callRange)]

/-- The output does not alias `peer`. -/
def writeAlias (peer : String) : Json :=
  .object
    [("relation", .string "no_alias"),
      ("between", .array [.string "output", .string peer])]

def writeEffects : Json :=
  .object
    [("reads", .array [.string "lhs", .string "rhs"]),
      ("writes", .array [.string "output"]),
      ("synchronization", .string "synchronous")]

def writeOperation (operation : Operation) : Json :=
  .object
    [("site_id", .string operation.siteId),
      ("kind", .string operation.kind),
      ("canonical_callee", .string operation.canonicalCallee),
      ("source", writeSource operation.source operation.callRange),
      ("source_argument_ranges", .array (operation.argumentRanges.map writeRange)),
      ("output", writeMatrixValue operation.output),
      ("operands", .array (operation.operands.map writeMatrixValue)),
      ("alias_requirements", .array [writeAlias "lhs", writeAlias "rhs"]),
      ("effects", writeEffects),
      ("policy",
        .object [("target", .string operation.target), ("fallback", .string operation.fallback)])]

def writeModule (module : Module) : Json :=
  .object
    [("schema", .string "matcore.ir"),
      ("version", .uint matcoreIrVersion),
      ("producer", .string module.producer),
      ("translation_unit",
        .object
          [("identity", .string module.translationUnit),
            ("source_file", .string module.sourceFile)]),
      ("operations", .array (module.operations.map writeOperation))]

def serializeDeterministicJson (rapidjson : RapidJson) (module : Module) : Text :=
  rapidjson.document (writeModule module)

def exactStringArray (object : Json) (name : String) (expected : List String) :
    Except String Unit := do
  let encoded ← requiredMember irName object name asArray
  failIf (encoded.length ≠ expected.length) ("Matcore IR field has wrong cardinality: " ++ name)
  failIf (encoded.map Json.asString ≠ expected.map some)
    ("Matcore IR field has invalid value: " ++ name)

/-- `IsUint` with `GetUint() == value`. -/
def hasUint (object : Json) (name : String) (value : UInt64) : Bool :=
  (object.member name).bind Json.asUint = some value

def matrixMembers : List String :=
  ["role", "expression", "dtype", "rank", "shape", "strides", "layout", "mutability",
    "memory_space"]

def parseMatrix (encoded : Json) : Except String MatrixValue := do
  exactMembers encoded matrixMembers "matrix value"
  let role ← readString irName encoded "role"
  let expression ← readString irName encoded "expression"
  let mutability ← readString irName encoded "mutability"
  let dtype ← readString irName encoded "dtype"
  let layout ← readString irName encoded "layout"
  let memorySpace ← readString irName encoded "memory_space"
  failIf (dtype ≠ "f32" || !hasUint encoded "rank" 2 || layout ≠ "row_major_contiguous" ||
      memorySpace ≠ "host")
    "Matcore IR v0 matrix metadata must be host f32 rank-2 contiguous"
  exactStringArray encoded "shape" ["?", "?"]
  exactStringArray encoded "strides" ["dynamic-columns", "1"]
  return { role, expression, mutability }

def parseAlias (encoded : Json) (peer : String) : Except String Unit := do
  exactMembers encoded ["relation", "between"] "alias requirement"
  let relation ← readString irName encoded "relation"
  failIf (relation ≠ "no_alias") "gemm alias requirements must be output/lhs and output/rhs"
  exactStringArray encoded "between" ["output", peer]

def parseAliasRequirements (operation : Json) : Except String Unit := do
  let aliases ← requiredMember irName operation "alias_requirements" asArray
  match aliases with
  | [first, second] =>
    parseAlias first "lhs"
    parseAlias second "rhs"
  | _ => .error "gemm requires exactly two no-alias requirements"

def parseEffects (operation : Json) : Except String Unit := do
  let effects ← requiredMember irName operation "effects" asObject
  exactMembers effects ["reads", "writes", "synchronization"] "effects"
  exactStringArray effects "reads" ["lhs", "rhs"]
  exactStringArray effects "writes" ["output"]
  let synchronization ← readString irName effects "synchronization"
  failIf (synchronization ≠ "synchronous")
    "gemm effects must be synchronous reads(lhs,rhs)/writes(output)"

def parseSource (source : Json) : Except String (SourceLocation × SourceRange) := do
  exactMembers source ["file", "line", "column", "byte_offset", "byte_range"] "source location"
  let file ← readString irName source "file"
  let offset ← readUint64 irName source "byte_offset"
  let line ← readUint64 irName source "line"
  let column ← readUint64 irName source "column"
  failIf (line > 0xFFFFFFFF || column > 0xFFFFFFFF) "source line or column exceeds the v0 range"
  let byteRange ← requiredMember irName source "byte_range" asObject
  let callRange ← parseRange irName byteRange
  return ({ file, offset, line := line.toUInt32, column := column.toUInt32 }, callRange)

def operationMembers : List String :=
  ["site_id", "kind", "canonical_callee", "source", "source_argument_ranges", "output", "operands",
    "alias_requirements", "effects", "policy"]

/-- The body of the loop over the operations, up to its `push_back`. -/
def parseOperation (encoded : Json) : Except String Operation := do
  failIf (!encoded.isObject) "Matcore IR operation must be an object"
  exactMembers encoded operationMembers "operation"
  let siteId ← readString irName encoded "site_id"
  let kind ← readString irName encoded "kind"
  let canonicalCallee ← readString irName encoded "canonical_callee"
  let encodedSource ← requiredMember irName encoded "source" asObject
  let (source, callRange) ← parseSource encodedSource
  let encodedRanges ← requiredMember irName encoded "source_argument_ranges" asArray
  let argumentRanges ← encodedRanges.mapM (parseRange irName)
  let encodedOutput ← requiredMember irName encoded "output" asObject
  let output ← parseMatrix encodedOutput
  let encodedOperands ← requiredMember irName encoded "operands" asArray
  let operands ← encodedOperands.mapM parseMatrix
  parseAliasRequirements encoded
  parseEffects encoded
  let policy ← requiredMember irName encoded "policy" asObject
  exactMembers policy ["target", "fallback"] "policy"
  let target ← readString irName policy "target"
  let fallback ← readString irName policy "fallback"
  return {
    siteId, kind, canonicalCallee, source, callRange, argumentRanges, output, operands, target
    fallback }

def rootMembers : List String :=
  ["schema", "version", "producer", "translation_unit", "operations"]

/-- The checks of a document before the producer is read. -/
def checkRoot (document : Json) : Except String Unit := do
  failIf (!document.isObject) "Matcore IR root must be a JSON object"
  exactMembers document rootMembers "Matcore IR root"
  let schema ← readString irName document "schema"
  failIf (schema ≠ "matcore.ir") ("unsupported Matcore IR schema: " ++ schema)
  failIf (!hasUint document "version" matcoreIrVersion)
    "unsupported Matcore IR version; expected version 0"

/-- The translation unit, with its shape checked. -/
def requiredUnit (document : Json) : Except String Json := do
  let unit ← requiredMember irName document "translation_unit" asObject
  exactMembers unit ["identity", "source_file"] "translation unit"
  return unit

/-- A step of the entry point: its result, or its message, and the caller's module after it. -/
abbrev ParseM := ExceptT String (StateM Module)

/-- The loop over the operations. -/
def parseOperations : List Json → ParseM Unit
  | [] => pure ()
  | encoded :: rest => do
    let operation ← (parseOperation encoded : Except String Operation)
    modify fun module => { module with operations := module.operations ++ [operation] }
    parseOperations rest

/-- The entry point from the producer on, field by field into the caller's module. -/
def fillModule (document : Json) : ParseM Unit := do
  let producer ← (readString irName document "producer" : Except String String)
  modify fun module => { module with producer }
  let unit ← (requiredUnit document : Except String Json)
  let translationUnit ← (readString irName unit "identity" : Except String String)
  modify fun module => { module with translationUnit }
  let sourceFile ← (readString irName unit "source_file" : Except String String)
  modify fun module => { module with sourceFile }
  let operations ← (requiredMember irName document "operations" asArray :
    Except String (List Json))
  parseOperations operations

def parseAndVerifyJson (rapidjson : RapidJson) (json : Text) : ParseM Unit := do
  set ({} : Module)
  let document ← (rapidjson.parse json : Except String Json)
  (checkRoot document : Except String Unit)
  fillModule document
  match verify (← get) with
  | .error message => do
    set ({} : Module)
    throw ("Matcore IR verifier rejected input: " ++ message)
  | .ok () => pure ()

end Matcore.Ir
