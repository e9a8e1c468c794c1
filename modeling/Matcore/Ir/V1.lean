import Matcore.Ir.Module

/-!
# MatCore IR v1

The typed module of `matcore_ir_v1.h` and its verifier in `matcore_ir_v1.cpp`.
-/

namespace Matcore.Ir.V1

inductive OperationKind where
  | gemm
  deriving DecidableEq

inductive DType where
  | f16 | bf16 | f32 | f64 | i8 | i32
  deriving DecidableEq

inductive Layout where
  | rowMajorContiguous
  | columnMajorContiguous
  | strided
  deriving DecidableEq

inductive MemorySpace where
  | host
  | device
  deriving DecidableEq

inductive Mutability where
  | readOnly
  | writeOnly
  | readWrite
  deriving DecidableEq

inductive ValueId where
  | output
  | lhs
  | rhs
  deriving DecidableEq

inductive AliasRelation where
  | noAlias
  deriving DecidableEq

inductive Synchronization where
  | synchronous
  deriving DecidableEq

inductive Target where
  | cpu
  deriving DecidableEq

inductive Fallback where
  | error
  deriving DecidableEq

inductive SemanticRequirement where
  | rank2Gemm
  | f32Arithmetic
  | i32Arithmetic
  | hostAddressable
  | synchronousExecution
  deriving DecidableEq

inductive ScalarExpr.Kind where
  | static
  | dynamic
  deriving DecidableEq

/-- A dimension or a stride. The code keeps both members whatever the kind. -/
structure ScalarExpr where
  kind : ScalarExpr.Kind := .dynamic
  value : UInt64 := 0
  symbol : String := ""
  deriving DecidableEq

def ScalarExpr.staticValue (literal : UInt64) : ScalarExpr := { kind := .static, value := literal }

structure TensorType where
  elementDtype : DType := .f32
  rank : UInt32 := 2
  shape : List ScalarExpr := []
  strides : List ScalarExpr := []
  layout : Layout := .rowMajorContiguous
  memorySpace : MemorySpace := .host
  requiredAlignmentBytes : UInt32 := 4

structure TensorValue where
  id : ValueId := .lhs
  sourceExpression : String := ""
  mutability : Mutability := .readOnly
  type : TensorType := {}

structure AliasRequirement where
  relation : AliasRelation := .noAlias
  first : ValueId := .output
  second : ValueId := .lhs
  deriving DecidableEq

structure Effects where
  reads : List ValueId := []
  writes : List ValueId := []
  synchronization : Synchronization := .synchronous

structure Policy where
  target : Target := .cpu
  fallback : Fallback := .error

structure Operation where
  siteId : String := ""
  kind : OperationKind := .gemm
  canonicalCallee : String := ""
  source : SourceLocation := {}
  callRange : SourceRange := {}
  argumentRanges : List SourceRange := []
  output : TensorValue := {}
  operands : List TensorValue := []
  accumulationDtype : DType := .f32
  requirements : List SemanticRequirement := []
  aliasRequirements : List AliasRequirement := []
  effects : Effects := {}
  policy : Policy := {}

structure Module where
  translationUnit : String := ""
  sourceFile : String := ""
  producer : String := ""
  operations : List Operation := []

/-! ## Verification

An enumeration of the model holds no value outside its list, so `known` of the code always
holds and is left out. -/

def validSymbol (symbol : String) : Bool :=
  match symbol.toList with
  | [] => false
  | first :: rest =>
    (first.isAlpha || first = '_') && rest.all fun value => value.isAlphanum || value = '_'

def naturalAlignment : DType → UInt32
  | .f16 | .bf16 => 2
  | .f32 | .i32 => 4
  | .f64 => 8
  | .i8 => 1

def legalGemmDTypeContract (input output accumulation : DType) : Bool :=
  match input with
  | .bf16 | .f32 => output = .f32 && accumulation = .f32
  | .i8 => output = .i32 && accumulation = .i32
  | .f16 | .f64 | .i32 => false

def verifyScalar (value : ScalarExpr) (context : String) : Except String Unit :=
  match value.kind with
  | .static =>
    failIf (value.value = 0 || !value.symbol.isEmpty)
      (context ++ " static value must be positive and have no symbol")
  | .dynamic =>
    failIf (value.value ≠ 0 || !validSymbol value.symbol)
      (context ++ " dynamic value must have one canonical symbol and no literal")

def verifyTensorType (type : TensorType) (context : String) : Except String Unit :=
  match type.rank, type.shape, type.strides with
  | 2, [shape0, shape1], [stride0, stride1] => do
    verifyScalar shape0 (context ++ " shape[0]")
    verifyScalar stride0 (context ++ " stride[0]")
    verifyScalar shape1 (context ++ " shape[1]")
    verifyScalar stride1 (context ++ " stride[1]")
    failIf (type.requiredAlignmentBytes = 0 ||
        type.requiredAlignmentBytes &&& (type.requiredAlignmentBytes - 1) ≠ 0 ||
        type.requiredAlignmentBytes < naturalAlignment type.elementDtype)
      (context ++ " alignment must be a power of two at least as large as the dtype")
    failIf (type.layout = .rowMajorContiguous &&
        (stride1 ≠ .staticValue 1 || stride0 ≠ shape1))
      (context ++ " row-major contiguous strides must be [shape[1], 1]")
    failIf (type.layout = .columnMajorContiguous &&
        (stride0 ≠ .staticValue 1 || stride1 ≠ shape0))
      (context ++ " column-major contiguous strides must be [1, shape[0]]")
  | _, _, _ => .error (context ++ " must be rank 2 with two shape and stride expressions")

def verifyValue (value : TensorValue) (expectedId : ValueId) (expectedMutability : Mutability)
    (context : String) : Except String Unit := do
  failIf (value.id ≠ expectedId) (context ++ " has the wrong semantic role")
  failIf value.sourceExpression.isEmpty (context ++ " source expression must not be empty")
  failIf (value.mutability ≠ expectedMutability) (context ++ " has the wrong mutability")
  verifyTensorType value.type context

def exactAliasContract (requirements : List AliasRequirement) : Bool :=
  requirements = [⟨.noAlias, .output, .lhs⟩, ⟨.noAlias, .output, .rhs⟩]

def exactEffectsContract (effects : Effects) : Bool :=
  effects.reads = [.lhs, .rhs] && effects.writes = [.output] &&
    effects.synchronization = .synchronous

def exactRequirementContract (requirements : List SemanticRequirement) (input : DType) : Bool :=
  let arithmetic := if input = .i8 then .i32Arithmetic else .f32Arithmetic
  requirements = [.rank2Gemm, arithmetic, .hostAddressable, .synchronousExecution]

/-- The checks of one operation that do not depend on the others. -/
def verifyOperation (operation : Operation) : Except String Unit := do
  verifyValue operation.output .output .writeOnly "gemm output"
  match operation.operands with
  | [first, second] =>
    verifyValue first .lhs .readOnly "gemm lhs"
    verifyValue second .rhs .readOnly "gemm rhs"
    let output := operation.output.type
    let lhs := first.type
    let rhs := second.type
    failIf (lhs.elementDtype ≠ rhs.elementDtype) "gemm lhs and rhs element dtypes must match"
    failIf (!legalGemmDTypeContract lhs.elementDtype output.elementDtype
        operation.accumulationDtype)
      ("gemm dtype contract must be f32xf32->f32 with f32 accumulation, " ++
        "bf16xbf16->f32 with f32 accumulation, or i8xi8->i32 with i32 accumulation")
    failIf (!exactRequirementContract operation.requirements lhs.elementDtype)
      ("gemm semantic capability requirements must be the canonical " ++
        "rank2/arithmetic/host/synchronous set for its dtype contract")
    failIf (output.memorySpace ≠ .host || lhs.memorySpace ≠ .host || rhs.memorySpace ≠ .host)
      ("current Matcore IR v1 GEMM semantics require host-addressable " ++
        "input and output values")
    failIf (lhs.shape[0]? ≠ output.shape[0]? || lhs.shape[1]? ≠ rhs.shape[0]? ||
        rhs.shape[1]? ≠ output.shape[1]?)
      "gemm requires exact symbolic M/K/N shape relationships"
    failIf (operation.output.sourceExpression = first.sourceExpression ||
        operation.output.sourceExpression = second.sourceExpression)
      "gemm output must not alias an input expression"
    failIf (!exactAliasContract operation.aliasRequirements)
      "gemm requires exact output/lhs and output/rhs no-alias contracts"
    failIf (!exactEffectsContract operation.effects)
      "gemm effects must synchronously read lhs/rhs and write output"
    failIf (operation.policy.target ≠ .cpu || operation.policy.fallback ≠ .error)
      "Matcore IR v1 GEMM requires target=cpu and fallback=error"
  | _ => .error "gemm requires ordered lhs and rhs operands"

/-- The loop of `verify`, with the site IDs seen so far. -/
def verifyOperations (sourceFile : String) :
    List String → UInt64 → List Operation → Except String Unit
  | _, _, [] => .ok ()
  | siteIds, previousCallEnd, operation :: rest => do
    failIf (!validSiteId operation.siteId || siteIds.contains operation.siteId)
      "operation site IDs must be canonical, lowercase, and unique"
    failIf (operation.kind ≠ .gemm || operation.canonicalCallee ≠ "matcore::mdsl::gemm")
      "Matcore IR v1 only accepts canonical gemm operations"
    verifySourceContract sourceFile operation.source operation.callRange operation.argumentRanges
      previousCallEnd
    verifyOperation operation
    verifyOperations sourceFile (operation.siteId :: siteIds) operation.callRange.past rest

def verify (module : Module) : Except String Unit := do
  failIf module.translationUnit.isEmpty "translation-unit identity must not be empty"
  failIf (module.sourceFile.isEmpty || !endsWithMdsl module.sourceFile)
    "source file must be nonempty and use the .mdsl extension"
  failIf (!knownProducer module.producer) "unknown Matcore IR v1 producer"
  verifyOperations module.sourceFile [] 0 module.operations

end Matcore.Ir.V1
