import Matcore.Lib.Json

/-!
# MatCore IR v0

The module of the bootstrap IR and its verifier (`matcore_ir.h`, `matcore_ir.cpp`). A string of
the code holds UTF-8 here, so it is a `String`.
-/

namespace Matcore.Ir

structure SourceLocation where
  file : String := ""
  offset : UInt64 := 0
  line : UInt32 := 0
  column : UInt32 := 0
  deriving DecidableEq

/-- Half-open byte offsets, `begin` and `end` in the code. -/
structure SourceRange where
  first : UInt64 := 0
  past : UInt64 := 0
  deriving DecidableEq

structure MatrixValue where
  role : String := ""
  expression : String := ""
  mutability : String := ""
  deriving DecidableEq

structure Operation where
  siteId : String := ""
  kind : String := ""
  canonicalCallee : String := ""
  source : SourceLocation := {}
  callRange : SourceRange := {}
  argumentRanges : List SourceRange := []
  output : MatrixValue := {}
  operands : List MatrixValue := []
  target : String := ""
  fallback : String := ""
  deriving DecidableEq

structure Module where
  translationUnit : String := ""
  sourceFile : String := ""
  producer : String := ""
  operations : List Operation := []
  deriving DecidableEq

def isHexDigit (c : Char) : Bool := ('0' ≤ c && c ≤ '9') || ('a' ≤ c && c ≤ 'f')

def validSiteId (identifier : String) : Bool :=
  let text := identifier.toList
  text.length = 35 && "mc_".toList.isPrefixOf text && (text.drop 3).all isHexDigit

def endsWithMdsl (file : String) : Bool := ".mdsl".toList.isSuffixOf file.toList

/-- Fails with `message` when `condition` holds. -/
def failIf (condition : Bool) (message : String) : Except String Unit :=
  if condition then .error message else .ok ()

@[simp] theorem failIf_eq_ok {condition : Bool} {message : String} :
    failIf condition message = .ok () ↔ condition = false := by
  unfold failIf
  cases condition <;> simp

/-- The loop over the argument ranges of a call. -/
def verifyArgumentRanges (call : SourceRange) : UInt64 → List SourceRange → Except String Unit
  | _, [] => .ok ()
  | previousArgumentEnd, range :: rest => do
    failIf (range.first < previousArgumentEnd || range.past ≤ range.first || range.past > call.past)
      "argument ranges must be ordered, nonempty, and inside the call"
    verifyArgumentRanges call range.past rest

/-- The checks of one operation on its place in the source, shared by both versions. -/
def verifySourceContract (sourceFile : String) (source : SourceLocation) (callRange : SourceRange)
    (argumentRanges : List SourceRange) (previousCallEnd : UInt64) : Except String Unit := do
  failIf (source.file ≠ sourceFile || source.line = 0 || source.column = 0)
    "operation source location must refer to the input .mdsl file"
  failIf (callRange.first ≠ source.offset || callRange.past ≤ callRange.first)
    "operation call range must be a nonempty half-open source range"
  failIf (callRange.first < previousCallEnd)
    "operation call ranges must be sorted and non-overlapping"
  failIf (argumentRanges.length ≠ 3 && argumentRanges.length ≠ 4)
    "gemm requires three or four explicit source argument ranges"
  verifyArgumentRanges callRange callRange.first argumentRanges

/-- The checks of one operation that do not depend on the others. -/
def verifyOperation (operation : Operation) : Except String Unit := do
  failIf (operation.output.role ≠ "output" || operation.output.mutability ≠ "write" ||
      operation.output.expression.isEmpty)
    "gemm requires one explicit mutable output"
  match operation.operands with
  | [lhs, rhs] =>
    failIf (lhs.role ≠ "lhs" || rhs.role ≠ "rhs") "gemm requires ordered lhs and rhs operands"
    failIf (lhs.mutability ≠ "read" || lhs.expression.isEmpty || rhs.mutability ≠ "read" ||
        rhs.expression.isEmpty)
      "gemm operands must be readable stable expressions"
    failIf (operation.output.expression = lhs.expression ||
        operation.output.expression = rhs.expression)
      "gemm output must not alias an input expression"
  | _ => .error "gemm requires ordered lhs and rhs operands"
  failIf (operation.target ≠ "cpu" || operation.fallback ≠ "error")
    "Matcore IR v0 requires target=cpu and fallback=error"

/-- The loop of `verify`, with the site IDs seen so far. -/
def verifyOperations (sourceFile : String) :
    List String → UInt64 → List Operation → Except String Unit
  | _, _, [] => .ok ()
  | siteIds, previousCallEnd, operation :: rest => do
    failIf (!validSiteId operation.siteId || siteIds.contains operation.siteId)
      "operation site IDs must be canonical, lowercase, and unique"
    failIf (operation.kind ≠ "gemm" || operation.canonicalCallee ≠ "matcore::mdsl::gemm")
      "Matcore IR v0 only accepts canonical gemm operations"
    verifySourceContract sourceFile operation.source operation.callRange operation.argumentRanges
      previousCallEnd
    verifyOperation operation
    verifyOperations sourceFile (operation.siteId :: siteIds) operation.callRange.past rest

def knownProducer (producer : String) : Bool :=
  producer = "clang-ast-json-bootstrap-v0" || producer = "clang-libtooling-v1"

def verify (module : Module) : Except String Unit := do
  failIf module.translationUnit.isEmpty "translation-unit identity must not be empty"
  failIf module.sourceFile.isEmpty "source file must not be empty"
  failIf (!endsWithMdsl module.sourceFile) "source file must use the .mdsl extension"
  failIf (!knownProducer module.producer) "unknown Matcore IR v0 producer"
  verifyOperations module.sourceFile [] 0 module.operations

end Matcore.Ir
