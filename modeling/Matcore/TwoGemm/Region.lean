import Matcore.TwoGemm.Ledger
import Matcore.Lib.LoopNest

/-!
# Region functions

The functions a two-GEMM region is written in, as operations in static single assignment form over
descriptors, order tokens and tensors, and what MLIR's own verifier and those of the operations
check of them.

A value is its position: the arguments first, then the results of the operations in their order.
-/

namespace Matcore.TwoGemm

open Mlir (Entries Bytes Value)
open LoopNest (AffineMap)

inductive ElementType where
  | f32
  | other (text : Bytes)
  deriving DecidableEq

/-- A ranked tensor type. A dimension without a size is dynamic. -/
structure TensorType where
  shape : List (Option ℕ)
  element : ElementType
  encoding : Option Bytes
  deriving DecidableEq

def TensorType.isDynamicDim (type : TensorType) (axis : ℕ) : Bool := type.shape[axis]? = some none

inductive Ty where
  | descriptor
  | order
  | index
  | f32
  | tensor (type : TensorType)
  | other (text : Bytes)
  deriving DecidableEq

structure FunctionType where
  inputs : List Ty
  results : List Ty

inductive Constant where
  /-- A `f32` by its bits. -/
  | float (bits : BitVec 32)
  | index (value : ℤ)
  | dense (type : TensorType) (text : Bytes)
  | other (type text : Bytes)

def Constant.type : Constant → Ty
  | .float _ => .f32
  | .index _ => .index
  | .dense type _ => .tensor type
  | .other type _ => .other type

inductive IteratorType where
  | parallel
  | reduction
  | window
  deriving DecidableEq

/-- A value in the body of a structured operation: one of the body, or one of the function. -/
inductive ScalarValue where
  | inner (value : ℕ)
  | outer (value : Value)
  deriving DecidableEq

/-- `fastmath` are the flags of the operation, none of them being `0`. -/
inductive ScalarOp where
  | constant (value : Constant)
  | addf (lhs rhs : ScalarValue) (fastmath : ℕ)
  | mulf (lhs rhs : ScalarValue) (fastmath : ℕ)
  | other (name : Bytes) (operands : List ScalarValue) (results : ℕ) (effectFree : Bool)

def ScalarOp.resultCount : ScalarOp → ℕ
  | .other _ _ results _ => results
  | _ => 1

def ScalarOp.operands : ScalarOp → List ScalarValue
  | .constant _ => []
  | .addf lhs rhs _ | .mulf lhs rhs _ => [lhs, rhs]
  | .other _ operands _ _ => operands

/-- The body of a structured operation, with the operands of its `linalg.yield`. -/
structure Body where
  arguments : ℕ
  ops : List ScalarOp
  yields : Option (List ScalarValue)

/-- The operation that defines a value of the body. -/
def Body.definingOp (body : Body) : ScalarValue → Option ScalarOp
  | .inner value =>
    if value < body.arguments then none
    else (body.ops.flatMap fun op => List.replicate op.resultCount op)[value - body.arguments]?
  | .outer _ => none

def ScalarValue.outerValue : ScalarValue → Option Value
  | .inner _ => none
  | .outer value => some value

/-- The values of the function that a body uses. -/
def Body.captures (body : Body) : List Value :=
  (body.ops.flatMap (·.operands) ++ body.yields.getD []).filterMap (·.outerValue)

/-- A structured operation on tensors, named or general. -/
structure LinalgOp where
  inputs : List Value
  inits : List Value
  maps : List AffineMap
  iterators : List IteratorType
  body : Body
  types : List TensorType

structure RegionGuardOp where
  order : Value
  lhs : Value
  rhs : Value
  output : Value
  stage : ℕ
  semanticContract : Entries
  guardLedger : Entries
  type : Ty

structure RegionReadOp where
  descriptor : Value
  checked : Value
  stage : ℕ
  role : String
  type : TensorType

structure RegionCommitOp where
  value : Value
  descriptor : Value
  checked : Value
  stage : ℕ
  failureBehavior : String
  type : TensorType
  order : Ty

/-- The last constructor stands for every other operation, those on buffers among them. -/
inductive Op where
  | regionBegin (type : Ty)
  | regionGuard (op : RegionGuardOp)
  | regionRead (op : RegionReadOp)
  | regionCommit (op : RegionCommitOp)
  | regionEnd (order : Value)
  | constant (value : Constant)
  | cast (source : Value) (type : TensorType)
  | dim (source index : Value)
  | empty (sizes : List Value) (type : TensorType)
  | linalg (op : LinalgOp)
  | other (name : Bytes) (operands : List Value) (types : List Ty)

def Op.results : Op → List Ty
  | .regionBegin type => [type]
  | .regionGuard op => [op.type]
  | .regionRead op => [.tensor op.type]
  | .regionCommit op => [.tensor op.type, op.order]
  | .regionEnd _ => []
  | .constant value => [value.type]
  | .cast _ type => [.tensor type]
  | .dim _ _ => [.index]
  | .empty _ type => [.tensor type]
  | .linalg op => op.types.map .tensor
  | .other _ _ types => types

def Op.operands : Op → List Value
  | .regionBegin _ => []
  | .regionGuard op => [op.order, op.lhs, op.rhs, op.output]
  | .regionRead op => [op.descriptor, op.checked]
  | .regionCommit op => [op.value, op.descriptor, op.checked]
  | .regionEnd order => [order]
  | .constant _ => []
  | .cast source _ => [source]
  | .dim source index => [source, index]
  | .empty sizes _ => sizes
  | .linalg op => op.inputs ++ op.inits ++ op.body.captures
  | .other _ operands _ => operands

/-- A call of the source contract. Its type attribute stands beside its other entries. -/
structure RegionSite where
  entries : Entries
  tensorType : Option FunctionType

/-- The `mdsl.region` attribute, as far as it has the arrays of sites and descriptors. -/
structure RegionContract where
  sites : Option (List (Option RegionSite))
  descriptors : Option (List Mlir.Attribute)

/-- `ops` is the block without its terminator. `returned` are the operands of a `func.return`. -/
structure RegionFunction where
  isPublic : Bool
  hasOneBlock : Bool
  arguments : List Ty
  results : List Ty
  hasArgAttrs : Bool
  hasResAttrs : Bool
  contract : Option RegionContract
  ops : List Op
  returned : Option (List Value)

/-- A value: its type and the operation that defines it, by its place in the block. -/
structure Definition where
  type : Ty
  op : Option (ℕ × Op)

def definitionsFrom (position : ℕ) : List Op → List Definition
  | [] => []
  | op :: rest =>
    op.results.map (⟨·, some (position, op)⟩) ++ definitionsFrom (position + 1) rest

/-- The values of a function. -/
abbrev Scope := List Definition

def RegionFunction.scope (function : RegionFunction) : Scope :=
  function.arguments.map (⟨·, none⟩) ++ definitionsFrom 0 function.ops

def Scope.type (scope : Scope) (value : Value) : Option Ty := scope[value]?.map (·.type)

def Scope.definingOp (scope : Scope) (value : Value) : Option (ℕ × Op) :=
  scope[value]?.bind (·.op)

/-- An operation at its place in the block, with the position of its first result. -/
structure Placed where
  position : ℕ
  first : Value
  op : Op

def placedFrom (position first : ℕ) : List Op → List Placed
  | [] => []
  | op :: rest =>
    ⟨position, first, op⟩ :: placedFrom (position + 1) (first + op.results.length) rest

def RegionFunction.placed (function : RegionFunction) : List Placed :=
  placedFrom 0 function.arguments.length function.ops

/-- A tensor of rank two with `f32` elements and no encoding. -/
def TensorType.isMatrix (type : TensorType) : Bool :=
  type.shape.length = 2 && type.element = .f32 && type.encoding = none

/-- The dimensions of a cast agree where both are static. -/
def castCompatible (source result : TensorType) : Bool :=
  source.element = result.element && source.shape.length = result.shape.length &&
    (source.shape.zip result.shape).all fun dims =>
      dims.1 = none || dims.2 = none || dims.1 = dims.2

def ranks (scope : Scope) (values : List Value) : List ℕ :=
  values.map fun value => match scope.type value with
    | some (.tensor type) => type.shape.length
    | _ => 0

def ScalarValue.definedBefore (defined : ℕ) : ScalarValue → Bool
  | .inner value => value < defined
  | .outer _ => true

/-- Every operand of a body is defined before its use. -/
def verifyBodyFrom (yields : List ScalarValue) : ℕ → List ScalarOp → Bool
  | defined, [] => yields.all (·.definedBefore defined)
  | defined, op :: rest => op.operands.all (·.definedBefore defined) &&
      verifyBodyFrom yields (defined + op.resultCount) rest

def LinalgOp.verify (scope : Scope) (op : LinalgOp) : Bool :=
  0 < op.inits.length && op.maps.length = op.inputs.length + op.inits.length &&
    op.inits.map scope.type = op.types.map (fun type => some (.tensor type)) &&
    (op.maps.all fun map => map.dims = op.iterators.length) &&
    op.maps.map (fun map => map.results.length) = ranks scope (op.inputs ++ op.inits) &&
    op.body.arguments = op.inputs.length + op.inits.length &&
    verifyBodyFrom (op.body.yields.getD []) op.body.arguments op.body.ops

def Op.verify (scope : Scope) : Op → Bool
  | .regionBegin type => type = .order
  | .regionGuard op =>
    scope.type op.order = some .order && op.type = .order &&
      scope.type op.lhs = some .descriptor && scope.type op.rhs = some .descriptor &&
      scope.type op.output = some .descriptor && op.stage ≤ 1
  | .regionRead op =>
    scope.type op.descriptor = some .descriptor && scope.type op.checked = some .order &&
      op.type.isMatrix && op.stage ≤ 1 && (op.role = "lhs" || op.role = "rhs")
  | .regionCommit op =>
    scope.type op.descriptor = some .descriptor && scope.type op.checked = some .order &&
      op.order = .order && op.type.isMatrix && scope.type op.value = some (.tensor op.type) &&
      op.failureBehavior = "may_write_output_before_failure_no_rollback" && op.stage ≤ 1
  | .regionEnd order => scope.type order = some .order
  | .constant (.dense type _) => type.shape.all (·.isSome)
  | .constant _ => true
  | .cast source type => match scope.type source with
    | some (.tensor sourceType) => castCompatible sourceType type
    | _ => false
  | .dim source index => (match scope.type source with
    | some (.tensor _) => true
    | _ => false) && scope.type index = some .index
  | .empty sizes type =>
    sizes.length = type.shape.count none && sizes.all fun size => scope.type size = some .index
  | .linalg op => op.verify scope
  | .other _ _ _ => true

/-- `mlir::verify`: every operand is defined before its use, and the operations pass their own
verifiers. -/
def RegionFunction.verify (function : RegionFunction) : Bool :=
  function.placed.all fun placed =>
    (placed.op.operands.all fun value => value < placed.first) &&
      placed.op.verify function.scope

end Matcore.TwoGemm
