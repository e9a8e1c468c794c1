import Matcore.TwoGemm.Verify

/-!
# Building a region

How a region function is derived from the two captured calls of the source: the numbering of the
descriptors, the guard ledgers and the operations of both calls.
-/

namespace Matcore.TwoGemm

open Mlir (Entries Bytes Value)

structure CapturedBinding where
  descriptorId : Bytes
  declarationId : Bytes
  sourceExpression : Bytes

/-- A captured call: the attributes and the type of its operation, and its bindings. -/
structure CapturedSite where
  siteId : Bytes
  semantics : Entries
  type : FunctionType
  bindings : Roles CapturedBinding

/-- What is derived of a call. -/
structure SourceStage where
  semantics : Entries
  type : FunctionType
  bindings : Roles Value
  ledger : Entries
  site : RegionSite

/-- The number of a descriptor, by the first binding that names it. -/
def bindDescriptor (binding : CapturedBinding) (stage : ℕ) (descriptors : List Bytes) :
    Except String (Mlir.Attribute × Value × List Bytes) :=
  if binding.descriptorId.isEmpty || binding.declarationId.isEmpty then
    .error "sealed descriptor bindings require per-call snapshot timing"
  else
    let argument := descriptors.idxOf binding.descriptorId
    .ok (.dictionary (.ofList [
        ("descriptor", .string binding.descriptorId),
        ("declaration", .string binding.declarationId),
        ("source_expression", .string binding.sourceExpression),
        ("snapshot_stage", .integer 64 stage),
        ("argument", .integer 64 argument)]), argument,
      if binding.descriptorId ∈ descriptors then descriptors
      else descriptors ++ [binding.descriptorId])

def collectStage (site : CapturedSite) (stage : ℕ) (descriptors : List Bytes) :
    Except String (SourceStage × List Bytes) := do
  let (first, output, descriptors) ← bindDescriptor site.bindings.output stage descriptors
  let (second, lhs, descriptors) ← bindDescriptor site.bindings.lhs stage descriptors
  let (third, rhs, descriptors) ← bindDescriptor site.bindings.rhs stage descriptors
  let bindings := [first, second, third]
  let ledger ← buildRegionGuardLedger site.semantics bindings stage
  return ({
    semantics := site.semantics
    type := site.type
    bindings := ⟨output, lhs, rhs⟩
    ledger
    site := {
      entries := .ofList [
        ("site_id", .string site.siteId),
        ("source_contract", .dictionary site.semantics),
        ("bindings", .array (.ofList bindings))]
      tensorType := some site.type } }, descriptors)

structure SourceRegion where
  first : SourceStage
  second : SourceStage
  descriptors : List Bytes
  forwardedInput : ℕ

def collectSource (first second : CapturedSite) : Except String SourceRegion := do
  let (call0, descriptors) ← collectStage first 0 []
  let (call1, descriptors) ← collectStage second 1 descriptors
  let message := "sealed two-GEMM region lacks the admitted producer/consumer relationship"
  match forwardedInput call0.bindings.output call1.bindings.lhs call1.bindings.rhs with
  | none => .error message
  | some forwarded => do
    check (call0.bindings.output ≠ call1.bindings.output) message
    return ⟨call0, call1, descriptors, forwarded⟩

/-- The operations of the block so far and the position of the next result. -/
structure OpBuilder where
  ops : List Op
  next : Value

/-- Appends an operation. The value is its first result. -/
def create (op : Op) : StateM OpBuilder Value := fun b =>
  (b.next, ⟨b.ops ++ [op], b.next + op.results.length⟩)

def dim (tensor : Value) (index : ℕ) : StateM OpBuilder Value := do
  let axis ← create (.constant (.index index))
  create (.dim tensor axis)

/-- The size of a dimension without one. -/
def dynamicSize (type : TensorType) (tensor : Value) (index : ℕ) :
    StateM OpBuilder (List Value) :=
  if type.isDynamicDim index then do
    let size ← dim tensor index
    return [size]
  else return []

def fillBody : Body := ⟨2, [], some [.inner 0]⟩

def matmulBody : Body :=
  ⟨3, [.mulf (.inner 0) (.inner 1) 0, .addf (.inner 2) (.inner 3) 0], some [.inner 4]⟩

def regionFailure : String := "may_write_output_before_failure_no_rollback"

/-- The type of an operand, which is a tensor. -/
def operandType (type : FunctionType) (operand : ℕ) : TensorType :=
  match type.inputs[operand]? with
  | some (.tensor operandType) => operandType
  | _ => ⟨[], .f32, none⟩

/-- An input of a call: the value of the call before it where that is carried, else a read. -/
def appendInput (source : SourceStage) (stage : ℕ) (carried : Option Value) (guard : Value)
    (role : ℕ) : StateM OpBuilder Value :=
  match carried with
  | some value => return value
  | none => create (.regionRead {
      descriptor := if role = 0 then source.bindings.lhs else source.bindings.rhs
      checked := guard
      stage
      role := if role = 0 then "lhs" else "rhs"
      type := operandType source.type role })

/-- A call behind an order token: its committed value, with the token of its commit beside it. -/
def appendStage (source : SourceStage) (stage : ℕ) (current : Value)
    (carried : ℕ → Option Value) : StateM OpBuilder Value := do
  let guard ← create (.regionGuard {
    order := current
    lhs := source.bindings.lhs
    rhs := source.bindings.rhs
    output := source.bindings.output
    stage
    semanticContract := source.semantics
    guardLedger := source.ledger
    type := .order })
  let lhs ← appendInput source stage (carried 0) guard 0
  let rhs ← appendInput source stage (carried 1) guard 1
  let type := operandType source.type 2
  let rows ← dynamicSize type lhs 0
  let columns ← dynamicSize type rhs 1
  let empty ← create (.empty (rows ++ columns) type)
  let positiveZero ← create (.constant (.float 0))
  let fill ← create (.linalg {
    inputs := [positiveZero]
    inits := [empty]
    maps := fillMaps
    iterators := [.parallel, .parallel]
    body := fillBody
    types := [type] })
  let matmul ← create (.linalg {
    inputs := [lhs, rhs]
    inits := [fill]
    maps := gemmMaps
    iterators := gemmIterators
    body := matmulBody
    types := [type] })
  create (.regionCommit {
    value := matmul
    descriptor := source.bindings.output
    checked := guard
    stage
    failureBehavior := regionFailure
    type
    order := .order })

def appendBody (source : SourceRegion) : StateM OpBuilder Value := do
  let start ← create (.regionBegin .order)
  let committed ← appendStage source.first 0 start fun _ => none
  let last ← appendStage source.second 1 (committed + 1) fun role =>
    if role = source.forwardedInput then some committed else none
  create (.regionEnd (last + 1))

def appendRegion (source : SourceRegion) : RegionFunction where
  isPublic := true
  hasOneBlock := true
  arguments := source.descriptors.map fun _ => .descriptor
  results := []
  hasArgAttrs := false
  hasResAttrs := false
  contract := some {
    sites := some [some source.first.site, some source.second.site]
    descriptors := some (source.descriptors.map .string) }
  ops := ((appendBody source).run ⟨[], source.descriptors.length⟩).2.ops
  returned := some []

end Matcore.TwoGemm
