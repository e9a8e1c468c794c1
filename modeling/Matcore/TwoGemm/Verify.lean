import Matcore.TwoGemm.Region

/-!
# The verifier of two-GEMM regions

`verifyFunction`, with what it calls.
-/

namespace Matcore.TwoGemm

open Mlir (Attribute Entries Value)
open LoopNest (AffineMap)
open Function (update)

def check (condition : Bool) (message : String) : Except String Unit :=
  if condition then .ok () else .error message

/-- A cast stands behind its source, so `fuel = value` takes every cast away. -/
def stripCastFrom (scope : Scope) : ℕ → Value → Value
  | 0, value => value
  | fuel + 1, value => match scope.definingOp value with
    | some (_, .cast source type) =>
      if scope.type source = some (.tensor type) then stripCastFrom scope fuel source else value
    | _ => value

def stripCast (scope : Scope) (value : Value) : Value := stripCastFrom scope value value

def constantIndex (scope : Scope) (value : Value) : Option ℤ :=
  match scope.definingOp value with
  | some (_, .constant (.index index)) => some index
  | _ => none

/-- The value is the extent of a tensor along an axis. -/
def dimension (scope : Scope) (size value : Value) (index : ℕ) : Bool :=
  match scope.definingOp size with
  | some (_, .constant (.index constant)) => match scope.type value with
    | some (.tensor type) => match type.shape[index]? with
      | some (some extent) => constant = extent
      | _ => false
    | _ => false
  | some (_, .dim source axis) =>
    stripCast scope source = stripCast scope value && constantIndex scope axis = some (index : ℤ)
  | _ => false

def safeIncidental (scope : Scope) : Op → Bool
  | .constant _ => true
  | .cast source type => scope.type source = some (.tensor type)
  | .dim source axis => match scope.type source, constantIndex scope axis with
    | some (.tensor type), some index => 0 ≤ index && index < type.shape.length
    | _, _ => false
  | _ => false

def ScalarOp.supported : ScalarOp → Bool
  | .constant _ => true
  | .addf _ _ fastmath | .mulf _ _ fastmath => fastmath = 0
  | .other _ _ _ _ => false

/-- What an `addf` of this shape yields: the third argument plus the product of the others. -/
def isContraction (body : Body) (yielded : ScalarValue) : Bool :=
  match body.definingOp yielded with
  | some (.addf lhs rhs 0) => match body.definingOp rhs with
    | some (.mulf left right 0) =>
      lhs = .inner 2 && left = .inner 0 && right = .inner 1
    | _ => false
  | _ => false

def canonicalScalar (op : LinalgOp) (contraction : Bool) : Bool :=
  (op.body.ops.all (·.supported)) && match op.body.yields with
    | some [yielded] =>
      if contraction then op.body.arguments = 3 && isContraction op.body yielded
      else op.body.arguments = 2 && yielded = .inner 0
    | _ => false

/-- The maps of the canonical topology of a GEMM, over rows, columns and the contracted index. -/
def gemmMaps : List AffineMap := [.projection 3 [0, 2], .projection 3 [2, 1], .projection 3 [0, 1]]

def gemmIterators : List IteratorType := [.parallel, .parallel, .reduction]

def fillMaps : List AffineMap := [⟨2, 0, []⟩, .projection 2 [0, 1]]

/-- The structured operation behind a value, with its place in the block. -/
def linalgOp (scope : Scope) (value : Value) : Option (ℕ × LinalgOp) :=
  match scope.definingOp (stripCast scope value) with
  | some (position, .linalg op) => some (position, op)
  | _ => none

def emptyOp (scope : Scope) (value : Value) : Option (ℕ × List Value × TensorType) :=
  match scope.definingOp (stripCast scope value) with
  | some (position, .empty sizes type) => some (position, sizes, type)
  | _ => none

def consumes (scope : Scope) (op : LinalgOp) (lhs rhs : Value) : Bool :=
  match op.inputs with
  | [first, second] => op.inits.length = 1 && op.types.length = 1 &&
      stripCast scope first = stripCast scope lhs && stripCast scope second = stripCast scope rhs
  | _ => false

def positiveZero (scope : Scope) (value : Value) : Bool :=
  match scope.definingOp value with
  | some (_, .constant (.float bits)) => bits = 0
  | _ => false

/-- The sizes of the dynamic dimensions follow the inputs. -/
def extentsFollow (scope : Scope) (type : TensorType) (lhs rhs : Value) :
    List ℕ → List Value → Bool
  | [], _ => true
  | axis :: rest, sizes =>
    if type.isDynamicDim axis then
      match sizes with
      | size :: sizes => dimension scope size (if axis = 0 then lhs else rhs) axis &&
          extentsFollow scope type lhs rhs rest sizes
      | [] => false
    else extentsFollow scope type lhs rhs rest sizes

/-- The places of the operations that a commit has been traced to. -/
def computation (scope : Scope) (commit : RegionCommitOp) (lhs rhs : Value) :
    Except String (List ℕ) :=
  match linalgOp scope commit.value with
  | none => .error "region contraction must consume the current guarded input versions"
  | some (matmulPosition, matmul) => do
    check (consumes scope matmul lhs rhs)
      "region contraction must consume the current guarded input versions"
    check (matmul.maps = gemmMaps && matmul.iterators = gemmIterators && canonicalScalar matmul true)
      "region contraction indexing or numerical computation changed"
    match matmul.inits.head?.bind (linalgOp scope) with
    | none => .error "region overwrite must initialize every output element"
    | some (fillPosition, fill) => do
      check (fill.inputs.length = 1 && fill.inits.length = 1 && fill.types.length = 1 &&
        canonicalScalar fill false) "region overwrite must initialize every output element"
      check (fill.inputs.all (positiveZero scope) && fill.maps = fillMaps &&
        fill.iterators = [.parallel, .parallel])
        "region initialization must be a full positive-zero fill"
      match fill.inits.head?.bind (emptyOp scope) with
      | none => .error "overwrite initialization may not read original destination data"
      | some (emptyPosition, sizes, type) => do
        check (scope.type commit.value = some (.tensor type))
          "overwrite initialization may not read original destination data"
        check (extentsFollow scope type lhs rhs [0, 1] sizes)
          "region output extent does not follow current input shapes"
        return [matmulPosition, fillPosition, emptyPosition]

/-- The role of the second call that reads the output of the first, the left one if both do. -/
def forwardedInput {α : Type} [DecidableEq α] (output lhs rhs : α) : Option ℕ :=
  if output = lhs then some 0 else if output = rhs then some 1 else none

/-- The argument that a binding names. -/
def boundArgument (arguments : ℕ) (descriptors : List Attribute) (stage : ℕ)
    (binding : Option Attribute) : Except String Value :=
  let binding := (asDictionary binding).getD .nil
  match integer 64 (binding.get "argument"), asString (binding.get "descriptor"),
    integer 64 (binding.get "snapshot_stage") with
  | some index, some descriptor, some snapshot =>
    if 0 ≤ index ∧ index < arguments ∧ descriptors[index.toNat]? = some (.string descriptor) ∧
        snapshot = stage then .ok index.toNat
    else .error "region descriptor binding or snapshot stage changed"
  | _, _, _ => .error "region descriptor binding or snapshot stage changed"

/-- The entries of a site that may be missing. -/
def siteEntries (site : Option RegionSite) : Entries := (site.map (·.entries)).getD .nil

/-- The arguments a call is bound to. -/
def boundSite (arguments : ℕ) (descriptors : List Attribute) (stage : ℕ)
    (site : Option RegionSite) : Except String (Roles Value) :=
  match asArray ((siteEntries site).get "bindings") with
  | some bindings =>
    if bindings.length = 3 then do
      let output ← boundArgument arguments descriptors stage bindings[0]?
      let lhs ← boundArgument arguments descriptors stage bindings[1]?
      let rhs ← boundArgument arguments descriptors stage bindings[2]?
      return ⟨output, lhs, rhs⟩
    else .error "region source contract requires output/lhs/rhs bindings"
  | none => .error "region source contract requires output/lhs/rhs bindings"

/-- The two sites of a function and the names of its descriptors. -/
def contractSites (function : RegionFunction) :
    Except String ((ℕ → Option RegionSite) × List Attribute) :=
  let contract := function.contract.getD ⟨none, none⟩
  match contract.sites, contract.descriptors with
  | some [first, second], some descriptors =>
    if function.arguments.length = descriptors.length then
      .ok (fun stage => if stage = 0 then first else second, descriptors)
    else .error "region source contract requires two sites and all descriptor bindings"
  | _, _ => .error "region source contract requires two sites and all descriptor bindings"

/-- The boundary operations found so far, each with its first result, and how many there were. -/
structure Scan where
  begin : Option Value := none
  guard : ℕ → Option (Value × RegionGuardOp) := fun _ => none
  commit : ℕ → Option (Value × RegionCommitOp) := fun _ => none
  reads : ℕ → ℕ → Option (Value × RegionReadOp) := fun _ _ => none
  finish : Option Value := none
  boundary : ℕ := 0

def RegionReadOp.roleIndex (op : RegionReadOp) : ℕ := if op.role = "lhs" then 0 else 1

def scanStep (scope : Scope) (forwarded : ℕ) (σ : Scan) (placed : Placed) :
    Except String Scan :=
  match placed.op with
  | .regionBegin _ =>
    if σ.begin.isSome ∨ σ.boundary ≠ 0 then
      .error "region begin must precede both failure frontiers"
    else .ok { σ with begin := some placed.first, boundary := σ.boundary + 1 }
  | .regionGuard op =>
    if σ.begin = none ∨ (σ.guard op.stage).isSome ∨ σ.boundary ≠ 1 + 2 * op.stage then
      .error "guard ordering changed relative to observable commits"
    else .ok { σ with
      guard := update σ.guard op.stage (some (placed.first, op))
      boundary := σ.boundary + 1 }
  | .regionCommit op =>
    if (σ.commit op.stage).isSome ∨ σ.boundary ≠ 2 + 2 * op.stage then
      .error "commit must precede the next call's failure frontier"
    else .ok { σ with
      commit := update σ.commit op.stage (some (placed.first, op))
      boundary := σ.boundary + 1 }
  | .regionRead op =>
    if σ.guard op.stage = none ∨ σ.boundary ≠ 2 + 2 * op.stage ∨
        (σ.reads op.stage op.roleIndex).isSome ∨ (op.stage = 1 ∧ op.roleIndex = forwarded) then
      .error "input snapshots must follow their guard and previous commit"
    else .ok { σ with
      reads := update σ.reads op.stage
        (update (σ.reads op.stage) op.roleIndex (some (placed.first, op))) }
  | .regionEnd order =>
    if σ.finish.isSome ∨ σ.boundary ≠ 5 then .error "region end must follow both commits"
    else .ok { σ with finish := some order, boundary := σ.boundary + 1 }
  | .linalg op =>
    if op.body.ops.all fun nested => match nested with
      | .other _ _ _ effectFree => effectFree
      | _ => true then .ok σ
    else .error "region contains an unmodeled effect or unsafe speculative computation"
  | .empty _ _ => .ok σ
  | op =>
    if safeIncidental scope op then .ok σ
    else .error "region contains an unmodeled effect or unsafe speculative computation"

def scan (scope : Scope) (forwarded : ℕ) (placed : List Placed) : Except String Scan :=
  placed.foldlM (scanStep scope forwarded) {}

/-- The boundary operations of a region, all of them found. -/
structure Boundary where
  begin : Value
  guard : ℕ → Value × RegionGuardOp
  commit : ℕ → Value × RegionCommitOp
  /-- The role that is carried has no read. -/
  reads : ℕ → ℕ → Option (Value × RegionReadOp)
  finish : Value

def Scan.complete (σ : Scan) (forwarded : ℕ) : Except String Boundary :=
  let message := "region lost a required validation, input snapshot or observable commit"
  match σ.begin, σ.finish, σ.guard 0, σ.guard 1, σ.commit 0, σ.commit 1 with
  | some begin, some finish, some guard0, some guard1, some commit0, some commit1 =>
    if (σ.reads 0 0).isSome ∧ (σ.reads 0 1).isSome ∧ (σ.reads 1 (1 - forwarded)).isSome ∧
        σ.boundary = 6 then
      .ok ⟨begin, fun stage => if stage = 0 then guard0 else guard1,
        fun stage => if stage = 0 then commit0 else commit1, σ.reads, finish⟩
    else .error message
  | _, _, _, _, _, _ => .error message

/-- The first call's commit continues in the second call's guard. -/
def connected (function : RegionFunction) (boundary : Boundary) : Bool :=
  function.returned = some [] && (boundary.guard 0).2.order = boundary.begin &&
    (boundary.guard 1).2.order = (boundary.commit 0).1 + 1 &&
    boundary.finish = (boundary.commit 1).1 + 1

/-- The value a call takes for an input: the committed one for the carried role, else its read. -/
def inputValue (boundary : Boundary) (forwarded stage role : ℕ) : Option Value :=
  if stage ≠ 0 ∧ forwarded = role then some (boundary.commit 0).1
  else (boundary.reads stage role).map (·.1)

/-- The read of an input that is not carried has its guard, descriptor and type. -/
def readMatches (boundary : Boundary) (forwarded stage role : ℕ) (descriptor : Value)
    (type : Option Ty) : Bool :=
  (stage ≠ 0 && role = forwarded) || match boundary.reads stage role with
    | some (_, read) => read.descriptor = descriptor &&
        read.checked = (boundary.guard stage).1 && type = some (.tensor read.type)
    | none => false

def verifyStage (scope : Scope) (boundary : Boundary) (forwarded : ℕ) (arguments : Roles Value)
    (site : Option RegionSite) (stage : ℕ) : Except String (List ℕ) :=
  let guard := (boundary.guard stage).2
  let commit := (boundary.commit stage).2
  let message := "region guard lost a source contract or conditional runtime obligation"
  match asArray ((siteEntries site).get "bindings"), site.bind (·.tensorType) with
  | some bindings, some type => do
    check (bindings.length = 3 && type.inputs.length = 3 && type.results.length = 1 &&
      (siteEntries site).get "source_contract" = some (.dictionary guard.semanticContract) &&
      commit.checked = (boundary.guard stage).1) message
    verifyRegionGuardLedger guard.guardLedger guard.semanticContract bindings stage
    check (guard.output = arguments.output && guard.lhs = arguments.lhs &&
      guard.rhs = arguments.rhs && commit.descriptor = arguments.output &&
      type.results[0]? = some (.tensor commit.type))
      "guard and commit do not refer to their original descriptor bindings"
    check (readMatches boundary forwarded stage 0 arguments.lhs type.inputs[0]? &&
      readMatches boundary forwarded stage 1 arguments.rhs type.inputs[1]?)
      "region input snapshot has stale guard or descriptor"
    check (stage = 0 || type.inputs[forwarded]? = some (.tensor (boundary.commit 0).2.type))
      "carried descriptor version must retain its declared input type"
    match inputValue boundary forwarded stage 0, inputValue boundary forwarded stage 1 with
    | some lhs, some rhs => computation scope commit lhs rhs
    | _, _ => .error message
  | _, _ => .error message

/-- Every structured operation and every empty tensor has been validated. -/
def allValidated (function : RegionFunction) (validated : List ℕ) : Bool :=
  function.placed.all fun placed => match placed.op with
    | .linalg _ | .empty _ _ => placed.position ∈ validated
    | _ => true

/-- What the verifier has found out about a function it accepts. -/
structure Verified where
  sites : ℕ → Option RegionSite
  arguments : ℕ → Roles Value
  forwarded : ℕ
  boundary : Boundary
  validated : ℕ → List ℕ

def verifyParts (function : RegionFunction) : Except String Verified := do
  check (function.isPublic && function.hasOneBlock && function.results = [] &&
    !function.hasArgAttrs && !function.hasResAttrs)
    "region requires one public block with descriptor inputs and observable void result"
  let (sites, descriptors) ← contractSites function
  check (function.arguments.all (· = .descriptor))
    "region inputs must be source descriptor references"
  let first ← boundSite function.arguments.length descriptors 0 (sites 0)
  let second ← boundSite function.arguments.length descriptors 1 (sites 1)
  let message := "second GEMM must consume the first committed descriptor version"
  match forwardedInput first.output second.lhs second.rhs with
  | none => .error message
  | some forwarded => do
    check (first.output ≠ second.output) message
    let found ← scan function.scope forwarded function.placed
    let boundary ← found.complete forwarded
    check (connected function boundary)
      "region successful-continuation chain is disconnected"
    let validated0 ← verifyStage function.scope boundary forwarded first (sites 0) 0
    let validated1 ← verifyStage function.scope boundary forwarded second (sites 1) 1
    check (allValidated function (validated0 ++ validated1))
      "region contains an unvalidated structured computation"
    return ⟨sites, fun stage => if stage = 0 then first else second, forwarded, boundary,
      fun stage => if stage = 0 then validated0 else validated1⟩

def verifyFunction (function : RegionFunction) : Except String Unit := do
  let _ ← verifyParts function
  return ()

/-- How a module checks each of its functions, MLIR's verifier first. -/
def verifyTwoGemmRegion (function : RegionFunction) : Except String Unit := do
  check function.verify "two-GEMM region failed upstream/dialect verification"
  verifyFunction function

end Matcore.TwoGemm
