import Mathlib

/-!
# Closed-region programs

The transient admission records of a closed region (`MatcoreClosedRegion.h`): resources,
shape parameters and a body of operations, where a `shapeIf` carries two nested bodies.

A `std::vector<Operation>` whose elements own two further vectors is the tree `Body`: the
constructor `cons` holds an operation's own fields, its two nested bodies and the
operations after it.
-/

namespace Matcore.ClosedRegion

abbrev Id := ℕ

/-- `std::string`: a sequence of bytes. -/
abbrev Text := List UInt8

/-- The largest `int64_t`. -/
def maximum : ℕ := 2 ^ 63 - 1

structure SourceFile where
  id : Id := 0
  path : Text := []
  sha256 : Text := []
  byteSize : ℕ := 0

structure SourceSite where
  offset : ℕ := 0
  length : ℕ := 0
  line : ℕ := 0
  column : ℕ := 0
  fileId : Id := 0

inductive Dimension.Kind where
  | literal
  | shapeParameter
  | valueRows
  | valueColumns
  deriving DecidableEq

structure Dimension where
  kind : Dimension.Kind := .literal
  literal : ℕ := 0
  reference : Id := 0

inductive NumericalProfile where
  | strictF32
  | reassociateF32
  deriving DecidableEq

inductive Comparison where
  | less
  | lessEqual
  | equal
  | notEqual
  | greater
  | greaterEqual
  deriving DecidableEq

inductive Operation.Kind where
  | read
  | gemm
  | publish
  | observe
  | shapeIf
  deriving DecidableEq

/-- An operation without its nested bodies, which stand beside it in `Body.cons`. -/
@[ext] structure Operation where
  kind : Operation.Kind := .read
  site : SourceSite := {}
  helperCalls : List SourceSite := []
  result : Id := 0
  resource : Id := 0
  lhs : Id := 0
  rhs : Id := 0
  rows : Dimension := {}
  columns : Dimension := {}
  numericalProfile : NumericalProfile := .strictF32
  comparison : Comparison := .equal
  conditionLhs : Dimension := {}
  conditionRhs : Dimension := {}

/-- A vector of operations, each with its `then_body` and `else_body`. -/
inductive Body where
  | nil
  | cons (op : Operation) (thenBody elseBody rest : Body)

namespace Body

def isEmpty : Body → Bool
  | nil => true
  | cons .. => false

/-- The operations of a body in source order, those of the nested bodies included. -/
def preorder : Body → List Operation
  | nil => []
  | cons op thenBody elseBody rest =>
    op :: (thenBody.preorder ++ (elseBody.preorder ++ rest.preorder))

/-- The number of operations at any nesting. -/
def count : Body → ℕ
  | nil => 0
  | cons _ thenBody elseBody rest => 1 + thenBody.count + elseBody.count + rest.count

@[simp] theorem preorder_nil : nil.preorder = [] := rfl

@[simp] theorem preorder_cons (op : Operation) (t e r : Body) :
    (cons op t e r).preorder = op :: (t.preorder ++ (e.preorder ++ r.preorder)) := rfl

@[simp] theorem count_nil : nil.count = 0 := rfl

@[simp] theorem count_cons (op : Operation) (t e r : Body) :
    (cons op t e r).count = 1 + t.count + e.count + r.count := rfl

@[simp] theorem length_preorder (b : Body) : b.preorder.length = b.count := by
  induction b with
  | nil => rfl
  | cons op t e r iht ihe ihr => simp [iht, ihe, ihr]; omega

end Body

structure Resource where
  id : Id := 0
  name : Text := []
  parameterIndex : ℕ := 0

structure ShapeParameter where
  id : Id := 0
  name : Text := []
  parameterIndex : ℕ := 0

/-- A region. Its operations are distinct objects of one 64-bit address space, each of more
than two bytes, so there are fewer than `2 ^ 63` of them. -/
@[ext] structure Region where
  name : Text
  site : SourceSite
  resources : List Resource
  shapeParameters : List ShapeParameter
  body : Body
  addressable : body.count < 2 ^ 63

@[ext] structure Program where
  sourceIdentity : Text
  sourceSha256 : Text
  headerSha256 : Text
  compilerIdentity : Text
  sourceFiles : List SourceFile
  regions : List Region

end Matcore.ClosedRegion
