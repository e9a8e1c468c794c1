import Matcore.Handoff.Certificate

/-!
# The structured GEMM handoff

`MatcoreStructuredGemmHandoff.cpp`: every `mdsl.gemm` of a semantic module becomes a zero fill of its
output and a `linalg.matmul` into it, beside its contract, from which the semantic module can be
written again.
-/

namespace Matcore.Handoff

open Mlir (Bytes ascii)
open AttributeDict (Dictionary Entries)
open LoopNest (AffineMap)
open TwoGemm (IteratorType)

def gemmContractFields : List String :=
  ["accumulation_type", "aliasing", "effects", "lhs_semantics", "numerical", "origin",
    "output_semantics", "policy", "provenance", "rhs_semantics", "semantic_requirements", "site_id",
    "synchronization"]

def gemmCertificateProfile : Profile where
  schema := "matcore-structured-gemm-handoff-v1"
  producer := "matcore-structured-gemm-handoff-v1"
  authority := "inspection_only"
  sourceOperation := "mdsl.gemm"
  destinationRule := "original_output_full_zero_fill"
  structuredFunctionPrefix := "__matcore_structured_"
  semanticFunctionPrefix := "__matcore_semantic_"
  version := 1

def overwriteRole : String := "destination_overwrite_zero_fill"

def contractionRole : String := "gemm_contraction"

def verifyGemmContractStorageTypes (contract : Entries Ty) : Except String Unit :=
  match ["effects", "lhs_semantics", "numerical", "origin", "output_semantics", "policy",
      "provenance", "rhs_semantics"].find? fun name => (getDictionary contract name).isNone with
  | some name =>
    .error ("structured GEMM semantic contract field '" ++ name ++ "' must be a dictionary")
  | none =>
    require ((getType contract "accumulation_type").isSome && (getArray contract "aliasing").isSome &&
        (getArray contract "semantic_requirements").isSome &&
        (getString contract "site_id").isSome && (getString contract "synchronization").isSome)
      "structured GEMM semantic contract has an invalid outer field type"

def hasExactMarker (op : Op) (site : Bytes) (role : String) : Except String Unit := do
  requireExactNames op.attributes.entries ["mdsl.site_id", "mdsl.structured_role"]
    "structured Linalg operation marker"
  require (getString op.attributes.entries "mdsl.site_id" = some site &&
      requireString op.attributes.entries "mdsl.structured_role" role)
    "structured Linalg operation lost its exact site/role marker"

/-- The indexing maps that `linalg.matmul` has where none are given. -/
def defaultMatmulMaps : List AffineMap :=
  [.projection 3 [0, 2], .projection 3 [2, 1], .projection 3 [0, 1]]

def matmulIterators : List IteratorType := [.parallel, .parallel, .reduction]

/-- `buildCanonicalContractionTopologyV1` for a GEMM without transposes: maps, iterators and ranks. -/
def canonicalGemmTopology : List AffineMap × List IteratorType × List ℕ :=
  ([.projection 3 [0, 2], .projection 3 [2, 1], .projection 3 [0, 1]],
    [.parallel, .parallel, .reduction], [2, 2, 2])

def verifyDefaultMatmulMaps (scope : List Ty) (operands : List ℕ) (cast : TypeFn)
    (maps : List AffineMap) : Except String Unit := do
  require (maps = defaultMatmulMaps)
    "structured GEMM forbids user-defined transpose or broadcast maps"
  require (cast = .castSigned) "structured GEMM requires the canonical matmul scalar cast"
  require (maps.length = 3) "structured GEMM requires the canonical matmul indexing maps"
  match operands.mapM fun value => (scope[value]?).bind Ty.asTensor with
  | none => .error "structured GEMM matmul operands must remain ranked tensors"
  | some types =>
    require ((maps, matmulIterators, types.map (·.shape.length)) = canonicalGemmTopology)
      ("structured GEMM matmul does not realize canonical logical (m,k),(k,n),(m,n) topology: " ++
        "structured operation indexing/iterator/rank topology does not match the canonical " ++
        "standard-operation model")

def verifyMatmulScalarRegion (region : List ScalarBlock) : Except String Unit :=
  match region with
  | [block] =>
    match block.ops with
    | [multiply, add, yield] =>
      if block.arguments.length ≠ 3 then
        .error "structured GEMM matmul scalar block must contain multiply, add, and yield"
      else
        require (multiply.name = .mulF 0 && add.name = .addF 0 && yield.name = .yield &&
            multiply.operands = [.argument 0, .argument 1] &&
            add.operands = [.argument 2, .result 0] && yield.operands = [.result 1])
          "structured GEMM matmul scalar region or fast-math contract is not canonical"
    | _ => .error "structured GEMM matmul scalar block must contain multiply, add, and yield"
  | _ => .error "structured GEMM matmul must have one canonical scalar block"

def verifyFillScalarRegion (region : List ScalarBlock) : Except String Unit :=
  match region with
  | [block] =>
    match block.arguments.map Prod.fst, block.ops with
    | [first, second], [yield] => do
      require (first = .f32 && second = .f32)
        "structured GEMM fill scalar block must contain only its f32 yield"
      require (yield.name = .yield && yield.operands = [.argument 0] &&
          yield.attributes.names.isEmpty)
        "structured GEMM fill must yield the zero input, never the old destination element"
    | _, _ => .error "structured GEMM fill scalar block must contain only its f32 yield"
  | _ => .error "structured GEMM fill must have one canonical scalar block"

/-- The contract is about this site, in this module. -/
def verifyContractProvenance (f : Function) (contract : Entries Ty)
    (sourceFile numericalProfile : Bytes) :
    Bool :=
  contract.get "site_id" = f.attributes.get "mdsl.site_id" &&
    (getDictionary contract "numerical").bind (getString · "profile") = some numericalProfile &&
    (getDictionary contract "provenance").bind (getString · "file") = some sourceFile

/-- The checks on the four operations. The values of the block are the three arguments, the constant,
the filled output and the product. -/
def verifyStructuredOps (f : Function) (site : Bytes) (scope : List Ty)
    (constant fill matmul last : Op) : Except String Unit :=
  match constant.kind, fill.kind, matmul.kind, last.kind with
  | .constant value, .fill fillInputs, .matmul matmulInputs cast maps, .funcReturn => do
    require (constant.attributes.names.isEmpty && last.attributes.names.isEmpty)
      "structured GEMM constant/return may not carry discardable semantic hints"
    require (constant.results = [.f32] && value = .f32 0)
      "structured GEMM overwrite requires an exact positive f32 zero"
    require (fillInputs = 1 && fill.results.length = 1 && fill.operands = [3, 2])
      "structured GEMM fill must overwrite the original output"
    hasExactMarker fill site overwriteRole
    require (matmulInputs = 2 && matmul.results.length = 1 && matmul.operands = [0, 1, 4])
      "structured GEMM matmul must consume lhs/rhs and the filled destination"
    hasExactMarker matmul site contractionRole
    require (last.operands = [5] && f.results.head? = matmul.results.head?)
      "structured GEMM function must return the matmul result"
    require (constant.location = f.location && fill.location = f.location &&
        matmul.location = f.location && last.location = f.location)
      "structured GEMM operations must retain the authenticated source location"
    require (matmul.region.head?.all fun block => block.ops.all fun op => op.attributes.names.isEmpty)
      "structured GEMM scalar operations may not carry discardable semantic hints"
    verifyFillScalarRegion fill.region
    verifyDefaultMatmulMaps (scope ++ constant.results ++ fill.results) matmul.operands cast maps
    verifyMatmulScalarRegion matmul.region
  | _, _, _, _ => .error "structured GEMM function has a noncanonical operation sequence"

def verifyStructuredFunction (dialect : List Ty → Op → Bool) (sourceFile numericalProfile : Bytes)
    (ordinal : ℕ) (f : Function) : Except String Unit := do
  let verified ← verifyStructuredHandoffSiteCertificateV1 dialect f ordinal gemmCertificateProfile
  require (f.inputs.length = 3 && f.results.length = 1)
    "structured GEMM function requires lhs, rhs, output, and one result"
  let contract := verified.semanticContract.entries
  requireExactNames contract gemmContractFields "structured GEMM semantic contract"
  verifyGemmContractStorageTypes contract
  require (verifyContractProvenance f contract sourceFile numericalProfile)
    "structured GEMM contract does not match module/site provenance"
  match f.blocks with
  | [block] =>
    match block.ops with
    | [constant, fill, matmul, last] =>
      require (block.arguments.all fun argument => argument.2 = f.location)
        ("structured GEMM function arguments must retain the exact authenticated source location")
      verifyStructuredOps f verified.siteId (block.arguments.map Prod.fst) constant fill matmul last
    | _ => .error "structured GEMM function must contain exactly zero, fill, matmul, and return"
  | _ => .error "structured GEMM function must contain exactly zero, fill, matmul, and return"

/-- The region that upstream gives a `linalg.fill` of `f32` elements. -/
def fillRegion (location : Location) : List ScalarBlock :=
  [⟨[(.f32, location), (.f32, location)],
    [⟨.yield, [.argument 0], [], .empty, location⟩]⟩]

/-- The region that upstream gives a `linalg.matmul` of `f32` elements. -/
def matmulRegion (location : Location) : List ScalarBlock :=
  [⟨[(.f32, location), (.f32, location), (.f32, location)],
    [⟨.mulF 0, [.argument 0, .argument 1], [.f32], .empty, location⟩,
      ⟨.addF 0, [.argument 2, .result 0], [.f32], .empty, location⟩,
      ⟨.yield, [.result 1], [], .empty, location⟩]⟩]

def marker (site : Bytes) (role : String) : Dict :=
  (Dictionary.empty.setString "mdsl.site_id" site).setString "mdsl.structured_role" (ascii role)

def zeroOp (location : Location) : Op :=
  ⟨.constant (.f32 0), [], [.f32], .empty, [], location⟩

def fillOp (site : Bytes) (output : Ty) (location : Location) : Op :=
  ⟨.fill 1, [3, 2], [output], marker site overwriteRole, fillRegion location, location⟩

def matmulOp (site : Bytes) (output : Ty) (location : Location) : Op :=
  ⟨.matmul 2 .castSigned defaultMatmulMaps, [0, 1, 4], [output], marker site contractionRole,
    matmulRegion location, location⟩

def returnOp (value : ℕ) (location : Location) : Op :=
  ⟨.funcReturn, [value], [], .empty, [], location⟩

/-- The entry block that `addEntryBlock` gives a function. -/
def entryArguments (inputs : List Ty) (location : Location) : List (Ty × Location) :=
  inputs.map fun type => (type, location)

/-- The operations of a site. The result types are that of the output, the third argument. -/
def structuredOps (site : Bytes) (inputs : List Ty) (location : Location) : List Op :=
  let output := inputs.getD 2 .f32
  [zeroOp location, fillOp site output location, matmulOp site output location, returnOp 5 location]

def appendStructuredFunction (source : Function) (gemm : Op) : Except String Function := do
  let contract ← selectExactSemanticContractV1 gemm gemmContractFields "source mdsl.gemm"
  let site := (getString gemm.attributes.entries "site_id").getD []
  let attributes ←
    attachStructuredHandoffSiteCertificateV1 source contract site gemmCertificateProfile
  return {
    name := ascii gemmCertificateProfile.structuredFunctionPrefix ++ site
    inputs := source.inputs
    results := source.results
    attributes := attributes
    argAttrs := none
    resAttrs := none
    noInline := false
    visibility := none
    location := source.location
    blocks := [⟨entryArguments source.inputs source.location,
      structuredOps site source.inputs gemm.location⟩] }

/-- A verified module has a gemm first in every function, and no other operation. -/
def appendSite : TopLevel → Except String TopLevel
  | .func source =>
    match source.firstOp with
    | some gemm => do
      let target ← appendStructuredFunction source gemm
      return .func target
    | none => .error "source function does not contain one semantic operation"
  | .other _ => .error "semantic source module may contain only func.func sites"

/-- The name of a field in the structured module, and in the semantic one. -/
def witnessMap : List (String × String) :=
  [("mdsl.capture_schema", "mdsl.capture_schema"), ("mdsl.capture_version", "mdsl.capture_version"),
    ("mdsl.execution_intent", "mdsl.execution_intent"),
    ("mdsl.numerical_profile", "mdsl.numerical_profile"), ("mdsl.source_producer", "mdsl.producer"),
    ("mdsl.source_bridge_schema", "mdsl.bridge_schema"), ("mdsl.source_file", "mdsl.source_file"),
    ("mdsl.source_semantic_version", "mdsl.semantic_version"),
    ("mdsl.translation_unit", "mdsl.translation_unit")]

/-- The attributes of the semantic module, from those of the structured one. -/
def witnessAttributes (structured : Dict) : Dict := Dictionary.empty.copy structured witnessMap

def witnessFunction (f : Function) : Except String Function :=
  match getString f.attributes.entries "mdsl.source_semantic_symbol",
      getString f.attributes.entries "mdsl.site_id", f.attributes.sub "mdsl.semantic_contract" with
  | some symbol, some _, some contract =>
    .ok {
      name := symbol
      inputs := f.inputs
      results := f.results
      attributes := (Dictionary.empty.setFrom "mdsl.capture_ordinal" f.attributes
        "mdsl.capture_ordinal").setFrom "mdsl.site_id" f.attributes "mdsl.site_id"
      argAttrs := none
      resAttrs := none
      noInline := false
      visibility := none
      location := f.location
      blocks := [⟨entryArguments f.inputs f.location,
        [⟨.gemm, List.range f.inputs.length, f.results, contract, [], f.location⟩,
          returnOp f.inputs.length f.location]⟩] }
  | _, _, _ =>
    .error "cannot reconstruct semantic witness from incomplete structured function metadata"

def reconstructSemanticWitness (structured : Module) : Except String Module := do
  let functions ← structured.functions.mapM witnessFunction
  return {
    location := structured.location
    attributes := witnessAttributes structured.attributes
    body := functions.map .func }

section
variable (dialect : List Ty → Op → Bool) (digest : Fingerprint → Bytes)

def verifyStructuredSite (sourceFile numericalProfile : Bytes) (ordinal : ℕ) :
    TopLevel → Except String Unit
  | .other _ => .error "structured GEMM module may contain only func.func sites"
  | .func f => verifyStructuredFunction dialect sourceFile numericalProfile ordinal f

def verifyStructuredGemmHandoffV1 (m : Module) : Except String Unit := do
  require (moduleVerified dialect m) "structured GEMM handoff failed upstream MLIR verification"
  verifyStructuredHandoffCertificateEnvelopeV1 dialect m gemmCertificateProfile
  let sourceFile := (getString m.attributes.entries "mdsl.source_file").getD []
  let numericalProfile := (getString m.attributes.entries "mdsl.numerical_profile").getD []
  require (!sourceFile.isEmpty && numericalProfile = ascii explicitGemmF32Profile && !m.body.isEmpty)
    "structured GEMM module capture/numerical identity is invalid"
  forSites (verifyStructuredSite dialect sourceFile numericalProfile) 0 m.body
  let witness ← reconstructSemanticWitness m
  match verifyMatcoreV1BridgeModule dialect witness with
  | .error error =>
    .error ("structured GEMM retained contract does not reconstruct the exact verified explicit " ++
      "bridge envelope: " ++ error)
  | .ok () => .ok ()

/-- The contract of a source function, as the comparison selects it. -/
def selectSourceContract (source : Function) : Except String Dict :=
  match source.firstOp with
  | none => .error "source function does not contain one semantic operation"
  | some operation =>
    if operation.kind ≠ .gemm then .error "source function is not an mdsl.gemm site"
    else selectExactSemanticContractV1 operation gemmContractFields "source mdsl.gemm"

def verifyStructuredGemmHandoffMatchesV1 (semantic structured : Module) : Except String Unit :=
  match verifyMatcoreV1BridgeModule dialect semantic with
  | .error error =>
    .error ("structured/source comparison requires a verified semantic module: " ++ error)
  | .ok () => do
    verifyStructuredHandoffSourceEnvelopeV1 dialect semantic
    verifyStructuredGemmHandoffV1 dialect structured
    verifyStructuredHandoffCertificateMatchesSourceV1 dialect digest selectSourceContract
      gemmCertificateProfile semantic structured

def deriveStructuredGemmHandoffV1 (semantic : Module) : Except String Module :=
  match verifyMatcoreV1BridgeModule dialect semantic with
  | .error error =>
    .error ("structured GEMM handoff requires the exact verified explicit Matcore IR v1 bridge " ++
      "envelope: " ++ error)
  | .ok () => do
    verifyStructuredHandoffSourceEnvelopeV1 dialect semantic
    require (!semantic.body.isEmpty)
      "structured GEMM handoff requires at least one explicit mdsl.gemm"
    let attributes ←
      initializeStructuredHandoffCertificateV1 dialect semantic gemmCertificateProfile
    let body ← semantic.body.mapM appendSite
    let structured : Module := ⟨semantic.location, attributes, body⟩
    verifyStructuredGemmHandoffV1 dialect structured
    verifyStructuredGemmHandoffMatchesV1 dialect digest semantic structured
    return structured

end

end Matcore.Handoff
