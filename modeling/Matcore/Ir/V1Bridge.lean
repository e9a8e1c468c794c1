import Matcore.Ir.V1

/-!
# Between the two versions of MatCore IR

`fromV0` and `projectToV0` of `matcore_ir_v1_bridge.cpp`. The destination is empty until the
result is assigned to it, so a failure is its message alone.
-/

namespace Matcore.Ir.V1

def ScalarExpr.dynamic (name : String) : ScalarExpr := { kind := .dynamic, symbol := name }

def canonicalTensorType (rows columns : ScalarExpr) : TensorType where
  elementDtype := .f32
  rank := 2
  shape := [rows, columns]
  strides := [columns, .staticValue 1]
  layout := .rowMajorContiguous
  memorySpace := .host
  requiredAlignmentBytes := 4

def canonicalTensor (id : ValueId) (expression : String) (mutability : Mutability)
    (rows columns : ScalarExpr) : TensorValue where
  id := id
  sourceExpression := expression
  mutability := mutability
  type := canonicalTensorType rows columns

def canonicalRequirements : List SemanticRequirement :=
  [.rank2Gemm, .f32Arithmetic, .hostAddressable, .synchronousExecution]

def canonicalTensorForV0 (value : TensorValue) (expectedId : ValueId)
    (expectedMutability : Mutability) (expectedRows expectedColumns : ScalarExpr)
    (context : String) : Except String Unit :=
  let type := value.type
  failIf (value.id ≠ expectedId || value.mutability ≠ expectedMutability ||
      type.elementDtype ≠ .f32 || type.rank ≠ 2 || type.shape.length ≠ 2 ||
      type.strides.length ≠ 2 || type.layout ≠ .rowMajorContiguous ||
      type.memorySpace ≠ .host || type.requiredAlignmentBytes ≠ 4 ||
      type.shape[0]? ≠ some expectedRows || type.shape[1]? ≠ some expectedColumns ||
      type.strides[0]? ≠ some expectedColumns || type.strides[1]? ≠ some (.staticValue 1))
    (context ++ " cannot be represented losslessly by Matcore IR v0")

/-- The body of the loop of `fromV0`. A verified operation has its two operands. -/
def convertOperation (operation : Ir.Operation) : Operation :=
  let m := ScalarExpr.dynamic "m"
  let k := ScalarExpr.dynamic "k"
  let n := ScalarExpr.dynamic "n"
  { siteId := operation.siteId
    kind := .gemm
    canonicalCallee := operation.canonicalCallee
    source := operation.source
    callRange := operation.callRange
    argumentRanges := operation.argumentRanges
    output := canonicalTensor .output operation.output.expression .writeOnly m n
    operands :=
      [canonicalTensor .lhs (operation.operands.getD 0 {}).expression .readOnly m k,
       canonicalTensor .rhs (operation.operands.getD 1 {}).expression .readOnly k n]
    accumulationDtype := .f32
    requirements := canonicalRequirements
    aliasRequirements := [⟨.noAlias, .output, .lhs⟩, ⟨.noAlias, .output, .rhs⟩]
    effects := { reads := [.lhs, .rhs], writes := [.output], synchronization := .synchronous }
    policy := { target := .cpu, fallback := .error } }

/-- The module that `fromV0` hands to the verifier of v1. -/
def upgraded (source : Ir.Module) : Module where
  translationUnit := source.translationUnit
  sourceFile := source.sourceFile
  producer := source.producer
  operations := source.operations.map convertOperation

def fromV0 (source : Ir.Module) : Except String Module :=
  match Ir.verify source with
  | .error message => .error ("cannot upgrade unverified Matcore IR v0: " ++ message)
  | .ok () =>
    match verify (upgraded source) with
    | .error message =>
      .error ("internal v0-to-v1 conversion produced invalid IR: " ++ message)
    | .ok () => .ok (upgraded source)

/-- The body of the loop of `projectToV0`. -/
def projectOperation (operation : Operation) : Except String Ir.Operation := do
  let m := ScalarExpr.dynamic "m"
  let k := ScalarExpr.dynamic "k"
  let n := ScalarExpr.dynamic "n"
  failIf (operation.kind ≠ .gemm || operation.accumulationDtype ≠ .f32 ||
      operation.requirements ≠ canonicalRequirements)
    "gemm semantics cannot be represented losslessly by Matcore IR v0"
  canonicalTensorForV0 operation.output .output .writeOnly m n "gemm output"
  canonicalTensorForV0 (operation.operands.getD 0 {}) .lhs .readOnly m k "gemm lhs"
  canonicalTensorForV0 (operation.operands.getD 1 {}) .rhs .readOnly k n "gemm rhs"
  return {
    siteId := operation.siteId
    kind := "gemm"
    canonicalCallee := operation.canonicalCallee
    source := operation.source
    callRange := operation.callRange
    argumentRanges := operation.argumentRanges
    output := ⟨"output", operation.output.sourceExpression, "write"⟩
    operands :=
      [⟨"lhs", (operation.operands.getD 0 {}).sourceExpression, "read"⟩,
       ⟨"rhs", (operation.operands.getD 1 {}).sourceExpression, "read"⟩]
    target := "cpu"
    fallback := "error" }

/-- The module that `projectToV0` hands to the verifier of v0. -/
def projected (source : Module) : Except String Ir.Module := do
  let operations ← source.operations.mapM projectOperation
  return {
    translationUnit := source.translationUnit
    sourceFile := source.sourceFile
    producer := source.producer
    operations }

def projectToV0 (source : Module) : Except String Ir.Module :=
  match verify source with
  | .error message => .error ("cannot project unverified Matcore IR v1: " ++ message)
  | .ok () => do
    let module ← projected source
    match Ir.verify module with
    | .error message =>
      .error ("internal v1-to-v0 projection produced invalid IR: " ++ message)
    | .ok () => .ok module

end Matcore.Ir.V1
