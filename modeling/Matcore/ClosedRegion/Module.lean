import Matcore.ClosedRegion.Verify
import Matcore.Lib.Mlir

/-!
# Admission modules

The modules of the `mdsl_admission` dialect: its operations, its types and its private functions,
and what MLIR's generic verifier checks of them.
-/

namespace Matcore.ClosedRegion

open Mlir (Entries Regions Blocks)

inductive OpName where
  | funcReturn
  | arithConstant
  | arithCmpI
  | begin
  | read
  | checkGemm
  | gemm
  | publish
  | observe
  | shapeIf
  | dim
  | yield
  | other (name : String)
  deriving DecidableEq

def OpName.text : OpName → String
  | .funcReturn => "func.return"
  | .arithConstant => "arith.constant"
  | .arithCmpI => "arith.cmpi"
  | .begin => "mdsl_admission.begin"
  | .read => "mdsl_admission.read"
  | .checkGemm => "mdsl_admission.check_gemm"
  | .gemm => "mdsl_admission.gemm"
  | .publish => "mdsl_admission.publish"
  | .observe => "mdsl_admission.observe"
  | .shapeIf => "mdsl_admission.shape_if"
  | .dim => "mdsl_admission.dim"
  | .yield => "mdsl_admission.yield"
  | .other name => name

/-- The types the verifier tells apart. A `tensor` has rank two, `f32` elements and no encoding. -/
inductive Ty where
  | integer (width : ℕ)
  | order
  | descriptor
  | tensor (rows columns : Extent)
  | other (text : Text)
  deriving DecidableEq

abbrev Op := Mlir.Op OpName Ty

abbrev Ops := Mlir.Ops OpName Ty

abbrev Definitions := Mlir.Scope OpName Ty

/-- A function argument: its type and its attribute dictionary. -/
structure Argument where
  type : Ty
  attributes : Entries
  deriving DecidableEq

/-- A function. `attributes` leaves out its name, its visibility, its type and those of its
arguments, which have their own fields. -/
structure Function where
  name : Text
  isPrivate : Bool
  arguments : List Argument
  results : List Ty
  attributes : Entries
  body : Blocks OpName Ty
  deriving DecidableEq

/-- An operation of the module's own block. -/
inductive TopLevel where
  | function (function : Function)
  | other (op : Op) (regions : Regions OpName Ty)
  deriving DecidableEq

structure Module where
  attributes : Entries
  body : List TopLevel
  deriving DecidableEq

def OpName.isTerminator (name : OpName) : Bool := name == .funcReturn || name == .yield

/-- What the definitions of the registered operations ask of one. A function returns the types
`results`; in a nested block there are none to return. -/
def opWellFormed (results : Option (List Ty)) (scope : Definitions) (op : Op)
    (regions : Regions OpName Ty) : Bool :=
  op.operands.all (· < scope.length) &&
    match op.name with
    | .funcReturn => some (op.operands.filterMap scope.type) == results && op.results.isEmpty &&
        regions == .nil
    | .yield => op.operands.length == 1 && op.results.isEmpty && regions == .nil
    | .arithConstant => op.operands.isEmpty && regions == .nil &&
        match op.results, op.attributes.get "value" with
        | [.integer width], some (.integer width' _) => width == width'
        | [.integer _], _ => false
        | [_], some _ => true
        | _, _ => false
    | .arithCmpI => regions == .nil &&
        match op.operands.filterMap scope.type, op.results, op.attributes.get "predicate" with
        | [lhs, rhs], [result], some (.predicate _) =>
          lhs == rhs && match lhs with
            | .integer _ => result == .integer 1
            | _ => true
        | _, _, _ => false
    | _ => true

mutual

/-- A block ends with its one terminator, and its operations use values in scope. -/
def opsWellFormed (results : Option (List Ty)) (scope : Definitions) : Ops → Bool
  | .nil => false
  | .cons op regions .nil =>
    op.name.isTerminator && opWellFormed results scope op regions && regionsWellFormed scope regions
  | .cons op regions rest =>
    !op.name.isTerminator && opWellFormed results scope op regions &&
      regionsWellFormed scope regions && opsWellFormed results (scope ++ op.definitions) rest

/-- The regions of one block: those of more have a control flow of their own. -/
def regionsWellFormed (scope : Definitions) : Regions OpName Ty → Bool
  | .nil => true
  | .cons (.cons arguments ops .nil) rest =>
    opsWellFormed none (scope ++ Mlir.argumentScope arguments) ops && regionsWellFormed scope rest
  | .cons _ rest => regionsWellFormed scope rest

end

def Function.wellFormed (function : Function) : Bool :=
  match function.body with
  | .cons arguments ops .nil =>
    arguments == function.arguments.map (·.type) &&
      opsWellFormed (some function.results) (Mlir.argumentScope arguments) ops
  | _ => true

/-- The generic verification of the registered operations in regions of one block. -/
def Module.wellFormed (module : Module) : Bool :=
  (module.body.all fun
    | .function function => function.wellFormed
    | .other .. => true) &&
  (module.body.filterMap fun
    | .function function => some function.name
    | .other .. => none).Nodup

end Matcore.ClosedRegion
