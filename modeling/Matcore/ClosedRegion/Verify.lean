import Matcore.ClosedRegion.Program

/-!
# Admission of a closed-region program

`verifyProgram` of `MatcoreClosedRegion.cpp`: identities and source files, the parameters of
each region, and for each body the scoping of values, their single assignment and the fields
an operation of each kind may carry.

A static extent is `some n` and MLIR's dynamic extent is `none`.
-/

namespace Matcore.ClosedRegion

abbrev Extent := Option ℕ

abbrev Shape := Extent × Extent

/-- `std::map<Id, Shape>`: the values in scope. -/
abbrev Scope := Id → Option Shape

def fail {α : Type} (message : String) : Except String α :=
  .error ("closed-region admission: " ++ message)

def require (condition : Bool) (message : String) : Except String Unit :=
  if condition then .ok () else fail message

def digest (value : Text) : Bool :=
  value.length == 64 && value.all fun c => (48 ≤ c && c ≤ 57) || (97 ≤ c && c ≤ 102)

/-- The check of one entry of the source-file table, at `index`, after the entries `before`. -/
def fileValid (before : List SourceFile) (index : ℕ) (file : SourceFile) : Bool :=
  file.id == index + 1 && !file.path.isEmpty && file.path.length ≤ 4096 &&
    !file.path.contains 0 && digest file.sha256 && file.byteSize != 0 &&
    file.byteSize ≤ 16 * 1024 * 1024 && !(before.map (·.path)).contains file.path &&
    !(1 < index && (before.getLast?.map fun last => decide (file.path ≤ last.path)) == some true)

def filesFrom (before : List SourceFile) : List SourceFile → Bool
  | [] => true
  | file :: rest => fileValid before before.length file && filesFrom (before ++ [file]) rest

def filesValid (files : List SourceFile) (mainPath mainDigest : Text) : Bool :=
  match files with
  | [] => false
  | front :: _ =>
    files.length ≤ 4096 && front.path == mainPath && front.sha256 == mainDigest &&
      filesFrom [] files && (files.map (·.byteSize)).sum ≤ 64 * 1024 * 1024

def siteValid (site : SourceSite) (files : List SourceFile) : Bool :=
  site.fileId != 0 &&
    match files[site.fileId - 1]? with
    | none => false
    | some file =>
      site.length != 0 && site.line != 0 && site.column != 0 && site.offset ≤ maximum &&
        site.length ≤ maximum - site.offset && site.line ≤ maximum && site.column ≤ maximum &&
        site.offset ≤ file.byteSize && site.length ≤ file.byteSize - site.offset

def emptyDimension (dim : Dimension) : Bool :=
  dim.kind == .literal && dim.literal == 0 && dim.reference == 0

def dimension (dim : Dimension) (parameters : List Id) (values : Scope) :
    Except String Extent :=
  match dim.kind with
  | .literal =>
    if dim.reference ≠ 0 ∨ dim.literal > maximum then
      fail "literal extent is not a nonnegative signed-index value"
    else .ok (some dim.literal)
  | .shapeParameter =>
    if dim.literal ≠ 0 ∨ dim.reference ∉ parameters then
      fail "dimension does not reference a declared shape parameter"
    else .ok none
  | .valueRows | .valueColumns =>
    match dim.literal, values dim.reference with
    | 0, some shape => .ok (if dim.kind = .valueRows then shape.1 else shape.2)
    | _, _ => fail "dimension references a value outside its dominating scope"

def extentProduct : Shape → Except String Unit
  | (some rows, some columns) =>
    if rows ≠ 0 ∧ columns > maximum / rows then
      fail "static extent product overflows the semantic index domain"
    else .ok ()
  | _ => .ok ()

/-- What `verifyBody` threads through a body: the values in scope, which a nested body gets a
copy of, and all the identities used so far. -/
structure Values where
  scope : Scope
  all : List Id

/-- The lambda `newValue`: a fresh identity enters the scope with its shape. -/
def newValue (op : Operation) (shape : Shape) (values : Values) : Except String Values := do
  require (op.result != 0 && op.result ≤ maximum && !values.all.contains op.result)
    "value identity is zero, duplicate or unrepresentable"
  extentProduct shape
  return ⟨Function.update values.scope op.result (some shape), op.result :: values.all⟩

def Operation.hasControl (op : Operation) (thenBody elseBody : Body) : Bool :=
  !thenBody.isEmpty || !elseBody.isEmpty || !emptyDimension op.conditionLhs ||
    !emptyDimension op.conditionRhs || op.comparison != .equal

def Operation.hasShape (op : Operation) : Bool :=
  !emptyDimension op.rows || !emptyDimension op.columns

/-- The ids and files the checks of a region's operations read. -/
structure Context where
  resources : List Id
  parameters : List Id
  files : List SourceFile

def verifyRead (ctx : Context) (op : Operation) (hasControl : Bool) (values : Values) :
    Except String Values := do
  require (ctx.resources.contains op.resource && op.lhs == 0 && op.rhs == 0 && !hasControl &&
      op.numericalProfile == .strictF32)
    "read has an invalid resource or unrelated fields"
  let rows ← dimension op.rows ctx.parameters values.scope
  let columns ← dimension op.columns ctx.parameters values.scope
  newValue op (rows, columns) values

def verifyGemm (op : Operation) (hasControl : Bool) (values : Values) :
    Except String Values :=
  match values.scope op.lhs, values.scope op.rhs with
  | some lhs, some rhs => do
    require (op.resource == 0 && !op.hasShape && !hasControl)
      "GEMM needs two dominating immutable values only"
    require (lhs.2.isNone || rhs.1.isNone || lhs.2 == rhs.1)
      "statically incompatible GEMM contraction dimensions"
    newValue op (lhs.1, rhs.2) values
  | _, _ => fail "GEMM needs two dominating immutable values only"

def verifyPublish (ctx : Context) (op : Operation) (hasControl : Bool) (values : Values) :
    Except String Values := do
  require (ctx.resources.contains op.resource && (values.scope op.lhs).isSome &&
      op.result == 0 && op.rhs == 0 && !op.hasShape && !hasControl &&
      op.numericalProfile == .strictF32)
    "publication needs a resource and a dominating value only"
  return values

def verifyObserve (ctx : Context) (op : Operation) (hasControl : Bool) (values : Values) :
    Except String Values := do
  require (ctx.resources.contains op.resource && op.result == 0 && op.lhs == 0 &&
      op.rhs == 0 && !op.hasShape && !hasControl && op.numericalProfile == .strictF32)
    "observation needs a declared resource only"
  return values

/-- The checks of a `shapeIf` before its two bodies. -/
def verifyShapeIf (ctx : Context) (op : Operation) (values : Values) : Except String Unit := do
  require (op.result == 0 && op.resource == 0 && op.lhs == 0 && op.rhs == 0 &&
      !op.hasShape && op.numericalProfile == .strictF32)
    "shape-if cannot export branch-local values or resources"
  let _ ← dimension op.conditionLhs ctx.parameters values.scope
  let _ ← dimension op.conditionRhs ctx.parameters values.scope
  return ()

/-- The check `verifyBody` makes on entry to a body. -/
def verifyDepth (depth : ℕ) : Except String Unit :=
  require (depth ≤ 16) "shape-control nesting exceeds the bounded admission depth"

/-- The loop of `verifyBody`. Enumerations are closed here, so the checks that reject unknown
profiles, comparisons and kinds have no counterpart. -/
def verifyBody (ctx : Context) (depth : ℕ) : Body → Values → Except String Values
  | .nil, values => .ok values
  | .cons op thenBody elseBody rest, values => do
    require (siteValid op.site ctx.files && op.helperCalls.all (siteValid · ctx.files))
      "invalid source or helper-call site"
    let hasControl := op.hasControl thenBody elseBody
    let values ← match op.kind with
      | .read => verifyRead ctx op hasControl values
      | .gemm => verifyGemm op hasControl values
      | .publish => verifyPublish ctx op hasControl values
      | .observe => verifyObserve ctx op hasControl values
      | .shapeIf => do
        verifyShapeIf ctx op values
        verifyDepth (depth + 1)
        let afterThen ← verifyBody ctx (depth + 1) thenBody values
        verifyDepth (depth + 1)
        let afterElse ← verifyBody ctx (depth + 1) elseBody ⟨values.scope, afterThen.all⟩
        pure ⟨values.scope, afterElse.all⟩
    verifyBody ctx depth rest values

/-- The parameter checks of a region, with the parameter indices used so far. -/
def verifyParameters (message : String) :
    List (Id × Text × ℕ) → List Id → List ℕ → Except String (List Id × List ℕ)
  | [], ids, indices => .ok (ids, indices)
  | (id, name, index) :: rest, ids, indices => do
    require (id != 0 && id ≤ maximum && !name.isEmpty && !ids.contains id &&
      index ≤ maximum && !indices.contains index) message
    verifyParameters message rest (id :: ids) (index :: indices)

def verifyRegion (files : List SourceFile) (region : Region) : Except String Unit := do
  let (resources, indices) ← verifyParameters "duplicate or invalid resource parameter"
    (region.resources.map fun r => (r.id, r.name, r.parameterIndex)) [] []
  let (parameters, _) ← verifyParameters "duplicate or invalid shape parameter"
    (region.shapeParameters.map fun p => (p.id, p.name, p.parameterIndex)) [] indices
  verifyDepth 0
  let _ ← verifyBody ⟨resources, parameters, files⟩ 0 region.body ⟨fun _ => none, []⟩
  return ()

def verifyRegions (files : List SourceFile) : List Region → List Text → Except String Unit
  | [], _ => .ok ()
  | region :: rest, names => do
    require (!region.name.isEmpty && !names.contains region.name &&
        region.site.fileId == 1 && siteValid region.site files)
      "duplicate region name or invalid region source site"
    verifyRegion files region
    verifyRegions files rest (region.name :: names)

def verifyProgram (program : Program) : Except String Unit := do
  require (!program.sourceIdentity.isEmpty && digest program.sourceSha256 &&
      digest program.headerSha256 && !program.compilerIdentity.isEmpty &&
      !program.regions.isEmpty)
    "missing source/header/compiler identity or region"
  require (filesValid program.sourceFiles program.sourceIdentity program.sourceSha256)
    "missing, invalid or nondeterministic semantic source-file table"
  verifyRegions program.sourceFiles program.regions []

/-- A region that reads an input and a weight, multiplies twice, publishes the result, reads it
back and publishes it again, with an observation under a shape test. -/
def twoLayerBody : Body :=
  let site : SourceSite := { length := 1, line := 1, column := 1, fileId := 1 }
  let one : Dimension := { literal := 1 }
  .cons { kind := .read, site, resource := 1, result := 1, rows := one, columns := one } .nil .nil <|
  .cons { kind := .read, site, resource := 2, result := 2, rows := one, columns := one } .nil .nil <|
  .cons { kind := .gemm, site, lhs := 1, rhs := 2, result := 3 } .nil .nil <|
  .cons { kind := .gemm, site, lhs := 3, rhs := 2, result := 4 } .nil .nil <|
  .cons { kind := .publish, site, resource := 3, lhs := 4 } .nil .nil <|
  .cons { kind := .read, site, resource := 3, result := 5, rows := one, columns := one } .nil .nil <|
  .cons { kind := .shapeIf, site, conditionLhs := ⟨.valueRows, 0, 5⟩, conditionRhs := one }
    (.cons { kind := .observe, site, resource := 3 } .nil .nil .nil) .nil <|
  .cons { kind := .publish, site, resource := 1, lhs := 5 } .nil .nil .nil

def twoLayer : Region where
  name := [65]
  site := { length := 1, line := 1, column := 1, fileId := 1 }
  resources := [⟨1, [97], 0⟩, ⟨2, [98], 1⟩, ⟨3, [99], 2⟩]
  shapeParameters := []
  body := twoLayerBody
  addressable := by decide

def twoLayerProgram : Program where
  sourceIdentity := [47]
  sourceSha256 := List.replicate 64 48
  headerSha256 := List.replicate 64 48
  compilerIdentity := [67]
  sourceFiles := [⟨1, [47], List.replicate 64 48, 100⟩]
  regions := [twoLayer]

theorem verify_twoLayer : verifyProgram twoLayerProgram = .ok () := by decide

end Matcore.ClosedRegion
