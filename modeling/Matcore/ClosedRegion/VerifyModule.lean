import Matcore.ClosedRegion.Build

/-!
# Verifying an admission module

`verifyBlock`, `verifyModule` and `verifyModuleMatchesProgram` of `MatcoreClosedRegion.cpp`. The
generic verifier and the printer of MLIR are parameters.
-/

namespace Matcore.ClosedRegion

open Mlir (Attribute Entries Value Regions ascii)

/-- `ShapedType::kDynamic`. -/
def kDynamic : ℤ := -2 ^ 63

def textIs (d : Entries) (name : String) (expected : Text) : Bool :=
  match d.get name with
  | some (.string value) => value == expected
  | _ => false

def i64 : Option Attribute → Option ℤ
  | some (.integer 64 value) => some value
  | _ => none

def sourceValid (attr : Option Attribute) (files : List SourceFile) : Bool :=
  match attr with
  | some (.dictionary dict) =>
    dict.names.length == 5 &&
      match i64 (dict.get "file_id"), i64 (dict.get "offset"), i64 (dict.get "length"),
        i64 (dict.get "line"), i64 (dict.get "column") with
      | some file, some offset, some length, some line, some column =>
        0 < file && 0 ≤ offset && 0 < length && 0 < line && 0 < column &&
          length ≤ maximum - offset &&
          siteValid ⟨offset.toNat, length.toNat, line.toNat, column.toNat, file.toNat⟩ files
      | _, _, _, _, _ => false
  | _ => false

def isTensor : Option Ty → Bool
  | some (.tensor ..) => true
  | _ => false

def numericsValid (d : Entries) : Bool :=
  let strict := textIs d "numerical_profile" (ascii "strict_f32")
  (strict || textIs d "numerical_profile" (ascii "reassociate_f32")) &&
    textIs d "accumulator" (ascii "f32") &&
    textIs d "reduction_order"
      (ascii (if strict then "increasing_k" else "reassociation_permitted")) &&
    textIs d "multiply_add_contraction" (ascii (if strict then "forbidden" else "permitted")) &&
    textIs d "operation_boundary_rounding" (ascii "f32_nearest_ties_even") &&
    textIs d "cross_operation_reassociation" (ascii "forbidden") &&
    textIs d "special_values" (ascii "ieee_f32_no_finite_assumption") &&
    textIs d "signed_zero" (ascii "not_ignored") && textIs d "nan_payload" (ascii "unspecified") &&
    textIs d "fp_status_traps" (ascii "adaptation_unresolved_execution_forbidden")

def attrsAre (d : Entries) (allowed : List String) : Bool := d.names.all allowed.contains

def Op.attrsAre (op : Op) (allowed : List String) : Except String Unit :=
  require (ClosedRegion.attrsAre op.attributes allowed) ("unknown attribute on " ++ op.name.text)

structure VerifyState where
  order : Option Value := none
  epoch : Text := ascii "entry"
  resources : Id → Option Value
  values : List Value := []

/-- What the loop over a block threads: its own variables, the state and the two sets that every
block of a function shares. `scope` holds the values that the operation at hand may use. -/
structure BlockState where
  scope : Definitions
  state : VerifyState
  ids : List Id
  frontiers : List Text
  ended : Bool := false
  pendingCheck : Option Op := none

/-- The extent a value is known to hold, `none` for `dynamic`. -/
def knownExtent (scope : Definitions) (value : Value) : Option ℤ :=
  match scope.definingOp value with
  | none => none
  | some op =>
    match op.name, op.results, op.attributes.get "value", op.operands.map scope.type,
      i64 (op.attributes.get "axis") with
    | .arithConstant, [.integer _], some (.integer _ value), _, _ =>
      if value = kDynamic then none else some value
    | .dim, _, _, [some (.tensor rows columns)], some axis =>
      if axis = 0 then rows.map (↑) else if axis = 1 then columns.map (↑) else none
    | _, _, _, _, _ => none

def verifyTerminator (branch : Bool) (op : Op) (regions : Regions OpName Ty) (s : BlockState) :
    Except String BlockState := do
  require (s.pendingCheck.isNone && op.operands.length == 1 &&
      op.operands.head? == s.state.order && op.results.isEmpty && regions == .nil &&
      op.attributes == .nil && branch == (op.name == .yield))
    "effect completion token is dropped or branch terminator is invalid"
  return { s with ended := true }

/-- `arith.constant` of a signless integer type: the others are unknown operations. -/
def isConstantInt (op : Op) : Bool :=
  match op.results with
  | [.integer _] => true
  | _ => false

def verifyConstant (op : Op) (s : BlockState) : Except String BlockState := do
  require (s.pendingCheck.isNone && op.results == [.integer 64] &&
      (match op.attributes.get "value" with
        | some (.integer _ value) => decide (0 ≤ value)
        | _ => false) && attrsAre op.attributes ["value"])
    "invalid or misplaced nonnegative extent literal"
  return s

def verifyComparison (op : Op) (s : BlockState) : Except String BlockState := do
  require (s.pendingCheck.isNone &&
      op.operands.map s.scope.type == [some (.integer 64), some (.integer 64)] &&
      attrsAre op.attributes ["predicate"])
    "invalid shape comparison"
  require (match op.attributes.get "predicate" with
      | some (.predicate p) => [.eq, .ne, .ult, .ule, .ugt, .uge].contains p
      | _ => false)
    "shape comparison is not an admitted unsigned predicate"
  return s

def verifyDim (op : Op) (regions : Regions OpName Ty) (s : BlockState) :
    Except String BlockState := do
  require (s.pendingCheck.isNone && op.operands.length == 1 &&
      op.operands.all s.state.values.contains && op.results == [.integer 64] &&
      regions == .nil &&
      (match i64 (op.attributes.get "axis") with
        | some axis => decide (0 ≤ axis ∧ axis ≤ 1)
        | none => false) && attrsAre op.attributes ["axis"])
    "invalid value-dimension query"
  return s

def verifyBegin (branch : Bool) (op : Op) (regions : Regions OpName Ty) (s : BlockState) :
    Except String BlockState := do
  require (!branch && s.state.order.isNone && op.operands.isEmpty && op.results == [.order] &&
      regions == .nil && op.attributes == .nil)
    "invalid entry sequencing token"
  return { s with state := { s.state with order := some s.scope.length } }

/-- The source identity of an operation on the effect chain, with its frontier. -/
def verifySource (files : List SourceFile) (op : Op) : Except String Text :=
  match op.attributes.get "helper_calls", op.attributes.get "frontier" with
  | some (.array calls), some (.string frontier) => do
    require (sourceValid (op.attributes.get "source") files && !frontier.isEmpty &&
        calls.toList.all fun site => sourceValid (some site) files)
      "missing source/frontier identity"
    return frontier
  | _, _ => fail "missing source/frontier identity"

/-- The checks common to the operations on the effect chain, with the frontier they record. -/
def verifyEffect (files : List SourceFile) (op : Op) (regions : Regions OpName Ty)
    (s : BlockState) : Except String (Text × BlockState) := do
  require (!op.operands.isEmpty && op.operands.head? == s.state.order)
    "unknown operation or broken ordered effect chain"
  require (s.pendingCheck.isNone || op.name == .gemm)
    "checked GEMM frontier is separated from its computation"
  let frontier ← verifySource files op
  require (!s.frontiers.contains frontier) "duplicate source-effect frontier identity"
  require (op.name == .shapeIf || regions == .nil) "unexpected nested region"
  require (op.name == .publish || op.name == .shapeIf ||
      textIs op.attributes "resource_epoch" s.state.epoch)
    "stale or forged resource epoch"
  return (frontier, { s with frontiers := frontier :: s.frontiers })

def sourceAttributes : List String := ["source", "helper_calls", "frontier", "resource_epoch"]

def numericAttributes : List String :=
  ["numerical_profile", "accumulator", "reduction_order", "multiply_add_contraction",
    "operation_boundary_rounding", "cross_operation_reassociation", "special_values",
    "signed_zero", "nan_payload", "fp_status_traps"]

def verifyGemmOperands (op : Op) (s : BlockState) : Except String Unit :=
  require (numericsValid op.attributes && op.operands.length == 3 &&
      (op.operands.drop 1).all s.state.values.contains)
    "GEMM lost operand values or numerical contract"

def verifyResource (op : Op) (s : BlockState) : Except String Unit := do
  require (match i64 (op.attributes.get "resource_id"), op.operands[1]? with
      | some resource, some operand => decide (0 < resource) &&
          s.state.resources resource.toNat == some operand &&
          s.scope.type operand == some .descriptor
      | _, _ => false)
    "resource identity does not bind its imported capability"
  require (op.name == .observe ||
      textIs op.attributes "storage_view" (ascii "requested_dense_row_major_f32"))
    "resource effect lacks its required dense row-major f32 view contract"

def verifyObligations (op : Op) (kind : Obligation) : Except String Unit :=
  require (textIs op.attributes "evidence" (ascii "required_not_discharged") &&
      op.attributes.get "obligations" == some (obligations kind))
    "obligations were dropped, changed or asserted discharged"

/-- The identity of an immutable value, whose operation has `results` results. -/
def verifyValue (op : Op) (results : ℕ) (s : BlockState) : Except String BlockState :=
  match i64 (op.attributes.get "value_id") with
  | some id => do
    require (0 < id && !s.ids.contains id.toNat && op.results.length == results &&
        isTensor op.results.head?)
      "immutable value identity or tensor type is invalid"
    return { s with
      ids := id.toNat :: s.ids
      state := { s.state with values := s.scope.length :: s.state.values } }
  | none => fail "immutable value identity or tensor type is invalid"

/-- The two checks of an axis of a read against the extent that its operand holds. -/
def verifyReadAxis (extent : Option ℤ) (dim : Extent) : Except String Unit :=
  match extent with
  | some extent =>
    require (dim.map (Nat.cast : ℕ → ℤ) == some extent)
      "read tensor shape contradicts its explicit extent"
  | none => require dim.isNone "read invents an unproved static extent"

/-- The type of a read against the extents of its operands. -/
def verifyReadShape (op : Op) (scope : Definitions) : Except String Unit :=
  match op.operands, op.results with
  | [_, _, rows, columns], .tensor rowDim columnDim :: _ => do
    verifyReadAxis (knownExtent scope rows) rowDim
    verifyReadAxis (knownExtent scope columns) columnDim
    extentProduct (rowDim, columnDim)
  | _, _ => fail "read is not an immutable value at the current frontier"

def verifyReadOp (op : Op) (s : BlockState) : Except String BlockState := do
  verifyResource op s
  verifyObligations op .read
  let s ← verifyValue op 2 s
  require (op.operands.length == 4 &&
      (op.operands.drop 2).all (fun v => s.scope.type v == some (.integer 64)) &&
      op.results[1]? == some .order &&
      textIs op.attributes "read_semantics" (ascii "immutable_contents_at_frontier") &&
      textIs op.attributes "failure" (ascii "ordered_checked_read_failure_no_write"))
    "read is not an immutable value at the current frontier"
  verifyReadShape op s.scope
  Op.attrsAre op (sourceAttributes ++ ["resource_id", "storage_view", "obligations", "evidence",
    "value_id", "read_semantics", "failure"])
  return { s with state := { s.state with order := some (s.scope.length + 1) } }

def verifyCheckOp (op : Op) (s : BlockState) : Except String BlockState := do
  verifyGemmOperands op s
  verifyObligations op .checkGemm
  require (op.results == [.order] &&
      textIs op.attributes "failure" (ascii "ordered_checked_failure_no_write"))
    "checked failure contract is invalid"
  Op.attrsAre op (sourceAttributes ++ numericAttributes ++ ["obligations", "evidence", "failure"])
  return { s with
    pendingCheck := some op
    state := { s.state with order := some s.scope.length } }

/-- The type of a GEMM against those of its operands. -/
def verifyGemmShape (op : Op) (scope : Definitions) : Except String Unit :=
  match (op.operands.drop 1).map scope.type, op.results with
  | [some (.tensor lhsRows lhsColumns), some (.tensor rhsRows rhsColumns)],
    [.tensor rows columns] => do
    require (rows == lhsRows && columns == rhsColumns &&
        (lhsColumns.isNone || rhsRows.isNone || lhsColumns == rhsRows))
      "GEMM result geometry or contraction is invalid"
    extentProduct (rows, columns)
  | _, _ => fail "GEMM result geometry or contraction is invalid"

def verifyGemmOp (op : Op) (s : BlockState) : Except String BlockState := do
  verifyGemmOperands op s
  let s ← verifyValue op 1 s
  require (match s.pendingCheck with
      | some check => check.operands[1]? == op.operands[1]? &&
          check.operands[2]? == op.operands[2]? &&
          check.attributes.get "numerical_profile" == op.attributes.get "numerical_profile" &&
          textIs op.attributes "semantics" (ascii "immutable_mathematical_result")
      | none => false)
    "GEMM bypasses its exact checked operand/profile contract"
  verifyGemmShape op s.scope
  Op.attrsAre op (sourceAttributes ++ numericAttributes ++ ["value_id", "semantics"])
  return { s with pendingCheck := none }

def verifyPublishOp (op : Op) (frontier : Text) (s : BlockState) : Except String BlockState := do
  verifyResource op s
  verifyObligations op .publish
  require (op.results == [.order] && op.operands.length == 3)
    "resource effect has invalid operands/results"
  require ((op.operands.drop 2).all s.state.values.contains &&
      textIs op.attributes "input_epoch" s.state.epoch &&
      textIs op.attributes "output_epoch" frontier &&
      textIs op.attributes "resource_epoch" frontier &&
      textIs op.attributes "failure" (ascii "may_partially_mutate_no_rollback"))
    "publication lost value, version or partial-failure meaning"
  Op.attrsAre op (sourceAttributes ++ ["resource_id", "storage_view", "obligations", "evidence",
    "failure", "input_epoch", "output_epoch"])
  return { s with state := { s.state with epoch := frontier, order := some s.scope.length } }

def verifyObserveOp (op : Op) (s : BlockState) : Except String BlockState := do
  verifyResource op s
  verifyObligations op .observe
  require (op.results == [.order] && op.operands.length == 2)
    "resource effect has invalid operands/results"
  require (textIs op.attributes "semantics" (ascii "guaranteed_current_resource_observation") &&
      textIs op.attributes "failure" (ascii "ordered_observation_failure_no_rollback"))
    "observation was weakened or lost its failure frontier"
  Op.attrsAre op (sourceAttributes ++ ["resource_id", "obligations", "evidence", "failure",
    "semantics"])
  return { s with state := { s.state with order := some s.scope.length } }

/-- The checks of a `shape_if` before its branches. -/
def verifyCondition (op : Op) (s : BlockState) : Except String Unit :=
  require (op.operands.length == 2 &&
      (op.operands.drop 1).all (fun v => s.scope.type v == some (.integer 1)) &&
      op.results == [.order] && textIs op.attributes "input_epoch" s.state.epoch)
    "shape-if lost its condition or incoming resource state"

/-- The state in which a branch begins. -/
def BlockState.branch (s : BlockState) : BlockState :=
  { scope := s.scope ++ Mlir.argumentScope [.order]
    state := { s.state with order := some s.scope.length }
    ids := s.ids
    frontiers := s.frontiers }

/-- The check behind a branch, which keeps the state of the block around it. -/
def joinBranch (op : Op) (epoch : String) (s branch : BlockState) : Except String BlockState := do
  require (textIs op.attributes epoch branch.state.epoch)
    "shape-if branch resource state is not joined"
  return { s with ids := branch.ids, frontiers := branch.frontiers }

/-- The checks of a `shape_if` behind its branches. -/
def verifyJoin (op : Op) (frontier : Text) (s : BlockState) : Except String BlockState := do
  let joined := frontier ++ ascii ".join"
  require (textIs op.attributes "output_epoch" joined &&
      textIs op.attributes "resource_epoch" joined)
    "shape-if joined resource state is invalid"
  require (!s.frontiers.contains joined) "shape-if join reuses a prior source-effect frontier"
  Op.attrsAre op (sourceAttributes ++ ["input_epoch", "then_epoch", "else_epoch", "output_epoch"])
  return { s with
    frontiers := joined :: s.frontiers
    state := { s.state with epoch := joined, order := some s.scope.length } }

/-- What `verifyBlock` returns behind its loop. -/
def verifyBlockEnd (s : BlockState) : Except String BlockState := do
  require s.ended "region drops its completion effect token"
  return s

/-- The checks of an operation other than a `shape_if`. -/
def verifyOp (files : List SourceFile) (branch : Bool) (op : Op) (regions : Regions OpName Ty)
    (s : BlockState) : Except String BlockState :=
  match op.name with
  | .funcReturn | .yield => verifyTerminator branch op regions s
  | .arithConstant =>
    if isConstantInt op then verifyConstant op s
    else fail "unknown operation or broken ordered effect chain"
  | .arithCmpI => verifyComparison op s
  | .dim => verifyDim op regions s
  | .begin => verifyBegin branch op regions s
  | .read => do
    let effect ← verifyEffect files op regions s
    verifyReadOp op effect.2
  | .checkGemm => do
    let effect ← verifyEffect files op regions s
    verifyCheckOp op effect.2
  | .gemm => do
    let effect ← verifyEffect files op regions s
    verifyGemmOp op effect.2
  | .publish => do
    let effect ← verifyEffect files op regions s
    verifyPublishOp op effect.1 effect.2
  | .observe => do
    let effect ← verifyEffect files op regions s
    verifyObserveOp op effect.2
  | .shapeIf | .other _ => fail "unknown operation or broken ordered effect chain"

/-- The loop of `verifyBlock`, with `verifyBlock` itself inlined at the branches. -/
def verifyOps (files : List SourceFile) (branch : Bool) (depth : ℕ) :
    Ops → BlockState → Except String BlockState
  | .nil, s => .ok s
  | .cons op regions rest, s => do
    require (!s.ended) "operation follows a terminator"
    let after ← (if op.name = .shapeIf then do
      let effect ← verifyEffect files op regions s
      match regions with
      | .cons thenRegion (.cons elseRegion .nil) => do
        verifyCondition op effect.2
        let s ← (match thenRegion with
          | .cons [.order] ops .nil => do
            verifyDepth (depth + 1)
            let inner ← verifyOps files true (depth + 1) ops effect.2.branch
            let inner ← verifyBlockEnd inner
            joinBranch op "then_epoch" effect.2 inner
          | _ => fail "shape-if branch lacks its effect argument")
        let s ← (match elseRegion with
          | .cons [.order] ops .nil => do
            verifyDepth (depth + 1)
            let inner ← verifyOps files true (depth + 1) ops s.branch
            let inner ← verifyBlockEnd inner
            joinBranch op "else_epoch" s inner
          | _ => fail "shape-if branch lacks its effect argument")
        verifyJoin op effect.1 s
      | _ => fail "shape-if lost its condition or incoming resource state"
    else verifyOp files branch op regions s)
    verifyOps files branch depth rest { after with scope := s.scope ++ op.definitions }

def verifyBlock (files : List SourceFile) (branch : Bool) (depth : ℕ) (ops : Ops)
    (s : BlockState) : Except String BlockState := do
  verifyDepth depth
  let s ← verifyOps files branch depth ops s
  verifyBlockEnd s

/-- What `verifyModule` threads through the arguments of a function. -/
structure Bindings where
  resources : Id → Option Value := fun _ => none
  shapeIds : List Id := []
  parameterIds : List Id := []

/-- The source parameter that an argument is bound to. -/
def verifyParameter (attrs : Entries) (b : Bindings) : Except String Bindings :=
  match attrs.get "mdsl_admission.name", i64 (attrs.get "mdsl_admission.source_parameter") with
  | some (.string name), some parameter => do
    require (attrs.names.length == 3 && !name.isEmpty && 0 ≤ parameter &&
        !b.parameterIds.contains parameter.toNat)
      "invalid parameter source binding"
    return { b with parameterIds := parameter.toNat :: b.parameterIds }
  | _, _ => fail "invalid parameter source binding"

def verifyArgument (argument : Argument) (index : Value) (b : Bindings) :
    Except String Bindings := do
  let attrs := argument.attributes
  let b ← verifyParameter attrs b
  match argument.type with
  | .descriptor =>
    match i64 (attrs.get "mdsl_admission.resource_id") with
    | some id => do
      require (0 < id && (b.resources id.toNat).isNone) "invalid resource argument identity"
      return { b with resources := Function.update b.resources id.toNat (some index) }
    | none => fail "invalid resource argument identity"
  | .integer 64 =>
    match i64 (attrs.get "mdsl_admission.shape_id") with
    | some id => do
      require (0 < id && !b.shapeIds.contains id.toNat) "invalid shape argument identity"
      return { b with shapeIds := id.toNat :: b.shapeIds }
    | none => fail "invalid shape argument identity"
  | _ => fail "unsupported argument type"

def verifyArguments (index : Value) : List Argument → Bindings → Except String Bindings
  | [], b => .ok b
  | argument :: rest, b => do
    let b ← verifyArgument argument index b
    verifyArguments (index + 1) rest b

/-- The block state in which the block of a function begins. -/
def entryState (arguments : List Ty) (resources : Id → Option Value) : BlockState where
  scope := Mlir.argumentScope arguments
  state := { resources }
  ids := []
  frontiers := [ascii "entry"]

def verifyFunction (files : List SourceFile) (function : Function) : Except String Unit :=
  match function.body with
  | .cons arguments ops .nil => do
    require (function.isPrivate && function.results == [.order] &&
        sourceValid (function.attributes.get "mdsl_admission.source") files &&
        textIs function.attributes "mdsl_admission.aliasing" (ascii "all_resources_may_alias") &&
        attrsAre function.attributes ["mdsl_admission.source", "mdsl_admission.aliasing"])
      "invalid private region function"
    require (match function.attributes.get "mdsl_admission.source" with
        | some (.dictionary dict) => i64 (dict.get "file_id") == some 1
        | _ => false)
      "region definition must remain main-file-owned"
    let b ← verifyArguments 0 function.arguments {}
    let _ ← verifyBlock files false 0 ops (entryState arguments b.resources)
    return ()
  | _ => fail "invalid private region function"

def verifyFunctions (files : List SourceFile) : List TopLevel → Except String Unit
  | [] => .ok ()
  | .function function :: rest => do
    verifyFunction files function
    verifyFunctions files rest
  | .other .. :: _ => fail "invalid private region function"

def fileOf : Attribute → Option SourceFile
  | .dictionary row =>
    match row.get "path", row.get "sha256", i64 (row.get "id"), i64 (row.get "byte_size") with
    | some (.string path), some (.string hash), some id, some size =>
      if row.names.length = 4 ∧ 0 < id ∧ 0 < size then some ⟨id.toNat, path, hash, size.toNat⟩
      else none
    | _, _, _, _ => none
  | _ => none

/-- A string attribute of a module that is there and that `valid` accepts. -/
def verifyText (d : Entries) (name : String) (valid : Text → Bool) (message : String) :
    Except String Text :=
  match d.get name with
  | some (.string value) => do
    require (valid value) message
    return value
  | _ => fail message

def verifyFiles (d : Entries) : Except String (List SourceFile) :=
  match d.get "mdsl_admission.source_files" with
  | some (.array table) => do
    require (!table.toList.isEmpty && table.toList.length ≤ 4096)
      "missing or excessive semantic source-file table"
    match table.toList.mapM fileOf with
    | some files => return files
    | none => fail "invalid semantic source-file record"
  | _ => fail "missing or excessive semantic source-file table"

/-- The attributes of a module: its schema, its authority and its contracts, and no others. -/
def contractIs (d : Entries) : Bool :=
  textIs d "mdsl_admission.schema" (ascii "private_closed_region_v1") &&
    textIs d "mdsl_admission.authority" (ascii "inspection_only_no_execution") &&
    textIs d "mdsl_admission.aliasing" (ascii "all_resources_may_alias") &&
    textIs d "mdsl_admission.shape_scalar" (ascii "unsigned_64_no_target_index_narrowing") &&
    attrsAre d ["mdsl_admission.schema", "mdsl_admission.authority", "mdsl_admission.aliasing",
      "mdsl_admission.shape_scalar", "mdsl_admission.source_identity",
      "mdsl_admission.source_sha256", "mdsl_admission.header_sha256",
      "mdsl_admission.compiler_identity", "mdsl_admission.source_files"]

/-- `verifyModule`, behind the generic verification `verify`. -/
def verifyModule (verify : Module → Bool) (module : Module) : Except String Unit := do
  require (verify module) "invalid registered MLIR"
  let d := module.attributes
  require (contractIs d) "module changes private inspection authority or alias contract"
  let identity ← verifyText d "mdsl_admission.source_identity" (!·.isEmpty)
    "module lacks source/compiler identity"
  let _ ← verifyText d "mdsl_admission.compiler_identity" (!·.isEmpty)
    "module lacks source/compiler identity"
  let hash ← verifyText d "mdsl_admission.source_sha256" digest "invalid source/header digest"
  let _ ← verifyText d "mdsl_admission.header_sha256" digest "invalid source/header digest"
  let files ← verifyFiles d
  require (filesValid files identity hash)
    "semantic source-file table disagrees with entry or deterministic identity"
  require (!module.body.isEmpty) "empty admission module"
  verifyFunctions files module.body

/-- A module that passes the checks other than the generic verifier's. Its operations are those of
a closed region, its constants and comparisons are of 64 bits and each region is one block, so that
`Module.wellFormed` is all the generic verification there is of it. -/
def Module.Admitted (module : Module) : Prop := verifyModule (fun _ => true) module = .ok ()

/-- `buildModule`. An exception of the builder is an error here. -/
def buildModule (verify : Module → Bool) (program : Program) : Except String Module := do
  verifyProgram program
  match emitModule program with
  | some module => do
    verifyModule verify module
    return module
  | none => .error "std::out_of_range"

def verifyModuleMatchesProgram {P : Type} [DecidableEq P] (verify : Module → Bool)
    (printModule : Module → P) (program : Program) (module : Module) : Except String Unit := do
  verifyModule verify module
  match buildModule verify program with
  | .error error => fail ("paired admission record is invalid: " ++ error)
  | .ok expected =>
    require (printModule expected == printModule module)
      "untransformed semantic module does not match admitted source evidence"

end Matcore.ClosedRegion
