import Matcore.ClosedRegion.Module

/-!
# Building an admission module

`buildBody` of `MatcoreClosedRegion.cpp`. The builder's insertion point is the end of a block:
`BuildState.next` is the number of values in scope there, which the next result takes.

`std::map::at` throws where a key is missing, here `none`.
-/

namespace Matcore.ClosedRegion

open Mlir (Attribute Entries Value Blocks ascii)

/-- `Builder::getStringAttr` of a literal. -/
def literalAttr (text : String) : Attribute := .string (ascii text)

/-- `Builder::getI64IntegerAttr`. Every argument is at most `maximum`. -/
def i64Attr (value : ℕ) : Attribute := .integer 64 value

def sourceAttr (site : SourceSite) : Attribute :=
  .dictionary (.ofList [("file_id", i64Attr site.fileId), ("offset", i64Attr site.offset),
    ("length", i64Attr site.length), ("line", i64Attr site.line),
    ("column", i64Attr site.column)])

def strings (names : List String) : Attribute := .array (.ofList (names.map literalAttr))

inductive Obligation where
  | read
  | checkGemm
  | publish
  | observe
  deriving DecidableEq

def obligations : Obligation → Attribute
  | .read => .dictionary (.ofList [
      ("runtime_required", strings ["extent_index_representable", "extent_product_representable",
        "dense_row_major_f32_view_compatible", "read_access"]),
      ("caller_unproven", strings ["initialized_f32_objects", "capacity", "lifetime",
        "race_freedom"])])
  | .checkGemm => .dictionary (.ofList [
      ("runtime_required", strings ["contraction_shape_equal",
        "result_extent_product_representable", "rounding_nearest_ties_even",
        "gradual_underflow"]),
      ("dispatch_retained", strings ["implementation_legality", "fp_status_traps_preservation",
        "completion", "failure_attribution"])])
  | .publish => .dictionary (.ofList [
      ("runtime_required", strings ["destination_shape_layout",
        "dense_row_major_f32_view_compatible", "write_access"]),
      ("caller_unproven", strings ["capacity", "lifetime", "race_freedom"]),
      ("realization_required", strings ["preserve_live_immutable_values",
        "alias_safe_publication", "completion"])])
  | .observe => .dictionary (.ofList [
      ("runtime_required", strings ["read_access", "observation_ready"]),
      ("caller_unproven", strings ["capacity", "lifetime", "race_freedom"]),
      ("dispatch_retained", strings ["observation_completion", "failure_attribution"])])

def addSource (d : Entries) (source : Operation) (path : Text) : Entries :=
  ((d.set "source" (sourceAttr source.site)).set "helper_calls"
    (.array (.ofList (source.helperCalls.map sourceAttr)))).set "frontier" (.string path)

def addNumerics (d : Entries) (profile : NumericalProfile) : Entries :=
  let strict := profile == .strictF32
  let d := d.set "numerical_profile" (literalAttr (if strict then "strict_f32" else "reassociate_f32"))
  let d := d.set "accumulator" (literalAttr "f32")
  let d := d.set "reduction_order"
    (literalAttr (if strict then "increasing_k" else "reassociation_permitted"))
  let d := d.set "multiply_add_contraction"
    (literalAttr (if strict then "forbidden" else "permitted"))
  let d := d.set "operation_boundary_rounding" (literalAttr "f32_nearest_ties_even")
  let d := d.set "cross_operation_reassociation" (literalAttr "forbidden")
  let d := d.set "special_values" (literalAttr "ieee_f32_no_finite_assumption")
  let d := d.set "signed_zero" (literalAttr "not_ignored")
  let d := d.set "nan_payload" (literalAttr "unspecified")
  d.set "fp_status_traps" (literalAttr "adaptation_unresolved_execution_forbidden")

/-- The maps of the builder. A tensor value goes with the shape in its type. -/
structure BuildState where
  resources : Id → Option Value
  parameters : Id → Option Value
  values : Id → Option (Value × Shape)
  order : Value
  epoch : Text := ascii "entry"
  next : Value

def BuildState.define (state : BuildState) (id : Id) (shape : Shape) : BuildState :=
  { state with values := Function.update state.values id (some (state.next, shape)) }

def BuildState.advance (state : BuildState) (results : ℕ) : BuildState :=
  { state with next := state.next + results }

def tensor (shape : Shape) : Ty := .tensor shape.1 shape.2

def constantOp (literal : ℕ) : Op :=
  ⟨.arithConstant, [], [.integer 64], .ofList [("value", i64Attr literal)]⟩

def dimOp (value : Value) (axis : ℕ) : Op :=
  ⟨.dim, [value], [.integer 64], .ofList [("axis", i64Attr axis)]⟩

/-- The operation created for a dimension, if any, and the value that holds it. -/
def buildDimension (dim : Dimension) (state : BuildState) :
    Option (List Op × Value × BuildState) :=
  match dim.kind with
  | .literal => some ([constantOp dim.literal], state.next, state.advance 1)
  | .shapeParameter => (state.parameters dim.reference).map fun v => ([], v, state)
  | .valueRows | .valueColumns => (state.values dim.reference).map fun v =>
    ([dimOp v.1 (if dim.kind = .valueRows then 0 else 1)], state.next, state.advance 1)

def dimensionExtent (dim : Dimension) (state : BuildState) : Option Extent :=
  match dim.kind with
  | .literal => some (some dim.literal)
  | .shapeParameter => some none
  | .valueRows | .valueColumns => (state.values dim.reference).map fun v =>
    if dim.kind = .valueRows then v.2.1 else v.2.2

def cmpIPredicate : Comparison → Mlir.CmpIPredicate
  | .less => .ult
  | .lessEqual => .ule
  | .equal => .eq
  | .notEqual => .ne
  | .greater => .ugt
  | .greaterEqual => .uge

/-- The attributes that `buildBody` stores behind the `switch` in an operation on a resource. -/
def addResource (d : Entries) (source : Operation) (kind : Obligation) : Entries :=
  let d := d.set "resource_id" (i64Attr source.resource)
  let d := d.set "obligations" (obligations kind)
  let d := d.set "evidence" (literalAttr "required_not_discharged")
  if kind = .observe then d
  else d.set "storage_view" (literalAttr "requested_dense_row_major_f32")

def readOp (source : Operation) (path epoch : Text) (order resource rows columns : Value)
    (shape : Shape) : Op :=
  let d := Entries.nil.set "value_id" (i64Attr source.result)
  let d := d.set "read_semantics" (literalAttr "immutable_contents_at_frontier")
  let d := d.set "failure" (literalAttr "ordered_checked_read_failure_no_write")
  ⟨.read, [order, resource, rows, columns], [tensor shape, .order],
    addResource ((addSource d source path).set "resource_epoch" (.string epoch)) source .read⟩

def buildRead (source : Operation) (path : Text) (state : BuildState) :
    Option (List Op × BuildState) := do
  let (rowOps, rows, dimensions) ← buildDimension source.rows state
  let (columnOps, columns, dimensions) ← buildDimension source.columns dimensions
  let shape : Shape := (← dimensionExtent source.rows state, ← dimensionExtent source.columns state)
  let resource ← state.resources source.resource
  let op := readOp source path state.epoch state.order resource rows columns shape
  return (rowOps ++ (columnOps ++ [op]),
    { (dimensions.define source.result shape).advance 2 with order := dimensions.next + 1 })

def checkOp (source : Operation) (path epoch : Text) (order lhs rhs : Value) : Op :=
  let d := addNumerics (addSource .nil source (path ++ ascii ".check")) source.numericalProfile
  let d := d.set "obligations" (obligations .checkGemm)
  let d := d.set "evidence" (literalAttr "required_not_discharged")
  let d := d.set "failure" (literalAttr "ordered_checked_failure_no_write")
  ⟨.checkGemm, [order, lhs, rhs], [.order], d.set "resource_epoch" (.string epoch)⟩

def gemmOp (source : Operation) (path epoch : Text) (order lhs rhs : Value) (shape : Shape) : Op :=
  let d := (addNumerics .nil source.numericalProfile).set "value_id" (i64Attr source.result)
  let d := d.set "semantics" (literalAttr "immutable_mathematical_result")
  ⟨.gemm, [order, lhs, rhs], [tensor shape],
    (addSource d source path).set "resource_epoch" (.string epoch)⟩

def buildGemm (source : Operation) (path : Text) (state : BuildState) :
    Option (List Op × BuildState) := do
  let lhs ← state.values source.lhs
  let rhs ← state.values source.rhs
  let check := checkOp source path state.epoch state.order lhs.1 rhs.1
  let checked := { state.advance 1 with order := state.next }
  let shape : Shape := (lhs.2.1, rhs.2.2)
  let op := gemmOp source path state.epoch checked.order lhs.1 rhs.1 shape
  return ([check, op], (checked.define source.result shape).advance 1)

def publishOp (source : Operation) (path epoch : Text) (order resource value : Value) : Op :=
  let d := Entries.nil.set "failure" (literalAttr "may_partially_mutate_no_rollback")
  let d := (d.set "input_epoch" (.string epoch)).set "output_epoch" (.string path)
  ⟨.publish, [order, resource, value], [.order],
    addResource ((addSource d source path).set "resource_epoch" (.string path)) source .publish⟩

def buildPublish (source : Operation) (path : Text) (state : BuildState) :
    Option (List Op × BuildState) := do
  let resource ← state.resources source.resource
  let value ← state.values source.lhs
  return ([publishOp source path state.epoch state.order resource value.1],
    { state.advance 1 with order := state.next, epoch := path })

def observeOp (source : Operation) (path epoch : Text) (order resource : Value) : Op :=
  let d := Entries.nil.set "semantics" (literalAttr "guaranteed_current_resource_observation")
  let d := d.set "failure" (literalAttr "ordered_observation_failure_no_rollback")
  ⟨.observe, [order, resource], [.order],
    addResource ((addSource d source path).set "resource_epoch" (.string epoch)) source .observe⟩

def buildObserve (source : Operation) (path : Text) (state : BuildState) :
    Option (List Op × BuildState) := do
  let resource ← state.resources source.resource
  return ([observeOp source path state.epoch state.order resource],
    { state.advance 1 with order := state.next })

def conditionOp (source : Operation) (lhs rhs : Value) : Op :=
  ⟨.arithCmpI, [lhs, rhs], [.integer 1],
    .ofList [("predicate", .predicate (cmpIPredicate source.comparison))]⟩

/-- The values that a `shapeIf` compares, the comparison and the condition. -/
def buildCondition (source : Operation) (state : BuildState) :
    Option (List Op × Value × BuildState) := do
  let (lhsOps, lhs, dimensions) ← buildDimension source.conditionLhs state
  let (rhsOps, rhs, dimensions) ← buildDimension source.conditionRhs dimensions
  return (lhsOps ++ (rhsOps ++ [conditionOp source lhs rhs]), dimensions.next,
    dimensions.advance 1)

/-- The state in which a branch begins: its block's argument is its order token. -/
def BuildState.branch (state : BuildState) : BuildState :=
  { state.advance 1 with order := state.next }

def yieldOp (order : Value) : Op := ⟨.yield, [order], [], .nil⟩

/-- The block of a branch. -/
def branchBlock (ops : Ops) (order : Value) : Blocks OpName Ty :=
  .cons [.order] (ops.append (.ofList [yieldOp order])) .nil

def shapeIfOp (source : Operation) (path : Text) (state : BuildState) (condition : Value)
    (thenEpoch elseEpoch : Text) : Op :=
  let joined := path ++ ascii ".join"
  let d := Entries.nil.set "input_epoch" (.string state.epoch)
  let d := (d.set "then_epoch" (.string thenEpoch)).set "else_epoch" (.string elseEpoch)
  let d := d.set "output_epoch" (.string joined)
  ⟨.shapeIf, [state.order, condition], [.order],
    (addSource d source path).set "resource_epoch" (.string joined)⟩

/-- The path of the operation at `index` in a body. -/
def operationPath (base : Text) (index : ℕ) : Text := base ++ ascii "." ++ ascii (toString index)

/-- The loop of `buildBody` from the operation at `index` on. -/
def buildBody (base : Text) (index : ℕ) : Body → BuildState → Option (Ops × BuildState)
  | .nil, state => some (.nil, state)
  | .cons source thenBody elseBody rest, state => do
    let path := operationPath base index
    let (ops, state) ← match source.kind with
      | .read => (buildRead source path state).map fun built => (.ofList built.1, built.2)
      | .gemm => (buildGemm source path state).map fun built => (.ofList built.1, built.2)
      | .publish => (buildPublish source path state).map fun built => (.ofList built.1, built.2)
      | .observe => (buildObserve source path state).map fun built => (.ofList built.1, built.2)
      | .shapeIf => do
        let (conditionOps, condition, state) ← buildCondition source state
        let (thenOps, thenState) ← buildBody (path ++ ascii ".then") 0 thenBody state.branch
        let (elseOps, elseState) ← buildBody (path ++ ascii ".else") 0 elseBody state.branch
        let op := shapeIfOp source path state condition thenState.epoch elseState.epoch
        let regions := .cons (branchBlock thenOps thenState.order)
          (.cons (branchBlock elseOps elseState.order) .nil)
        pure ((Mlir.Ops.ofList conditionOps).append (.cons op regions .nil),
          { state.advance 1 with order := state.next, epoch := path ++ ascii ".join" })
    let (restOps, state) ← buildBody base (index + 1) rest state
    return (ops.append restOps, state)

def resourceArgument (resource : Resource) : Argument where
  type := .descriptor
  attributes := .ofList [("mdsl_admission.resource_id", i64Attr resource.id),
    ("mdsl_admission.source_parameter", i64Attr resource.parameterIndex),
    ("mdsl_admission.name", .string resource.name)]

def shapeArgument (parameter : ShapeParameter) : Argument where
  type := .integer 64
  attributes := .ofList [("mdsl_admission.shape_id", i64Attr parameter.id),
    ("mdsl_admission.source_parameter", i64Attr parameter.parameterIndex),
    ("mdsl_admission.name", .string parameter.name)]

/-- `map[id] = argument` for the ids of the arguments from `argument` on. -/
def bindArguments (map : Id → Option Value) (argument : Value) : List Id → Id → Option Value
  | [] => map
  | id :: rest => bindArguments (Function.update map id (some argument)) (argument + 1) rest

def regionArguments (region : Region) : List Argument :=
  region.resources.map resourceArgument ++ region.shapeParameters.map shapeArgument

def beginOp : Op := ⟨.begin, [], [.order], .nil⟩

def returnOp (order : Value) : Op := ⟨.funcReturn, [order], [], .nil⟩

/-- The state behind the `begin` of a region. -/
def initialState (region : Region) : BuildState :=
  let resources := region.resources.length
  let arguments := resources + region.shapeParameters.length
  { resources := bindArguments (fun _ => none) 0 (region.resources.map (·.id))
    parameters := bindArguments (fun _ => none) resources (region.shapeParameters.map (·.id))
    values := fun _ => none
    order := arguments
    next := arguments + 1 }

def buildFunction (index : ℕ) (region : Region) : Option Function := do
  let (ops, state) ←
    buildBody (ascii "region" ++ ascii (toString index)) 0 region.body (initialState region)
  let arguments := regionArguments region
  return {
    name := region.name
    isPrivate := true
    arguments
    results := [.order]
    attributes := .ofList [("mdsl_admission.source", sourceAttr region.site),
      ("mdsl_admission.aliasing", literalAttr "all_resources_may_alias")]
    body := .cons (arguments.map (·.type))
      (.cons beginOp .nil (ops.append (.ofList [returnOp state.order]))) .nil }

def buildFunctions (index : ℕ) : List Region → Option (List TopLevel)
  | [] => some []
  | region :: rest => do
    let function ← buildFunction index region
    return .function function :: (← buildFunctions (index + 1) rest)

def fileAttr (file : SourceFile) : Attribute :=
  .dictionary (.ofList [("id", i64Attr file.id), ("path", .string file.path),
    ("sha256", .string file.sha256), ("byte_size", i64Attr file.byteSize)])

def moduleAttributes (program : Program) : Entries :=
  let d := Entries.nil.set "mdsl_admission.schema" (literalAttr "private_closed_region_v1")
  let d := d.set "mdsl_admission.authority" (literalAttr "inspection_only_no_execution")
  let d := d.set "mdsl_admission.aliasing" (literalAttr "all_resources_may_alias")
  let d := d.set "mdsl_admission.shape_scalar" (literalAttr "unsigned_64_no_target_index_narrowing")
  let d := d.set "mdsl_admission.source_identity" (.string program.sourceIdentity)
  let d := d.set "mdsl_admission.source_sha256" (.string program.sourceSha256)
  let d := d.set "mdsl_admission.header_sha256" (.string program.headerSha256)
  let d := d.set "mdsl_admission.compiler_identity" (.string program.compilerIdentity)
  d.set "mdsl_admission.source_files" (.array (.ofList (program.sourceFiles.map fileAttr)))

/-- The module `buildModule` makes before it verifies it. -/
def emitModule (program : Program) : Option Module := do
  return ⟨moduleAttributes program, ← buildFunctions 0 program.regions⟩

end Matcore.ClosedRegion
