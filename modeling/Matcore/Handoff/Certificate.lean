import Matcore.Handoff.Bridge

/-!
# Certificates of structured handoffs

`MatcoreStructuredHandoffCertificate.cpp`: what a structured module records of its semantic source,
how it is written, and how it is verified alone and against the source. The code compares
attributes, types and locations as it prints them; here they are compared themselves. The digest of a
fingerprint is a parameter, of all that is printed into it.
-/

namespace Matcore.Handoff

open Mlir (Bytes ascii)
open AttributeDict (Dictionary Entries)

structure Profile where
  schema : String
  producer : String
  authority : String
  sourceOperation : String
  destinationRule : String
  structuredFunctionPrefix : String
  semanticFunctionPrefix : String
  version : ℤ

def verifyProfile (profile : Profile) : Except String Unit :=
  if profile.schema = "" || profile.producer = "" || profile.authority ≠ "inspection_only" ||
      profile.sourceOperation = "" || profile.destinationRule = "" ||
      profile.structuredFunctionPrefix = "" || profile.semanticFunctionPrefix = "" ||
      profile.version ≠ 1 then
    .error ("structured handoff certificate profile is incomplete, " ++
      "unversioned, or requests non-inspection authority")
  else .ok ()

def semanticModuleFields : List String :=
  ["mdsl.bridge_schema", "mdsl.capture_schema", "mdsl.capture_version", "mdsl.execution_intent",
    "mdsl.numerical_profile", "mdsl.producer", "mdsl.semantic_version", "mdsl.source_file",
    "mdsl.translation_unit"]

def structuredModuleFields : List String :=
  ["mdsl.analysis_only", "mdsl.capture_schema", "mdsl.capture_version", "mdsl.execution_authority",
    "mdsl.execution_intent", "mdsl.numerical_profile", "mdsl.producer", "mdsl.source_producer",
    "mdsl.source_bridge_schema", "mdsl.source_file", "mdsl.source_semantic_version",
    "mdsl.structured_handoff_schema", "mdsl.structured_handoff_version", "mdsl.translation_unit"]

def structuredFunctionFields : List String :=
  ["mdsl.capture_ordinal", "mdsl.semantic_contract", "mdsl.site_id", "mdsl.source_semantic_symbol",
    "mdsl.structured_handoff"]

def semanticFunctionFields : List String := ["mdsl.capture_ordinal", "mdsl.site_id"]

/-- The name of a field in the semantic module, and in the structured one. -/
def moduleMap : List (String × String) :=
  [("mdsl.capture_schema", "mdsl.capture_schema"), ("mdsl.capture_version", "mdsl.capture_version"),
    ("mdsl.execution_intent", "mdsl.execution_intent"),
    ("mdsl.numerical_profile", "mdsl.numerical_profile"), ("mdsl.producer", "mdsl.source_producer"),
    ("mdsl.bridge_schema", "mdsl.source_bridge_schema"), ("mdsl.source_file", "mdsl.source_file"),
    ("mdsl.semantic_version", "mdsl.source_semantic_version"),
    ("mdsl.translation_unit", "mdsl.translation_unit")]

def require (condition : Bool) (message : String) : Except String Unit :=
  if condition then .ok () else .error message

def requireExactNames (d : Entries Ty) (expected : List String) (context : String) :
    Except String Unit :=
  if d.names.length ≠ expected.length then
    .error (context ++ " must contain exactly " ++ toString expected.length ++ " fields")
  else
    match d.names.find? (!expected.contains ·) with
    | some name => .error (context ++ " contains unexpected field '" ++ name ++ "'")
    | none => .ok ()

def requireStringField (m : Module) (name expected context : String) : Except String Unit :=
  require (requireString m.attributes.entries name expected)
    (context ++ " field '" ++ name ++ "' must be '" ++ expected ++ "'")

def requireI32 (m : Module) (name : String) (expected : ℤ) (context : String) :
    Except String Unit :=
  require (requireInteger m.attributes.entries name expected)
    (context ++ " field '" ++ name ++ "' must be the exact signless i32 version")

def handoffAttribute (profile : Profile) : Dict :=
  (((Dictionary.empty.setString "authority" (ascii profile.authority)).setString
    "destination" (ascii profile.destinationRule)).setString
    "source_operation" (ascii profile.sourceOperation)).setInteger "version" 32 profile.version

def verifyHandoffAttribute (handoff : Entries Ty) (profile : Profile) : Except String Unit := do
  requireExactNames handoff ["authority", "destination", "source_operation", "version"]
    "structured function handoff"
  require (requireString handoff "authority" profile.authority &&
      requireString handoff "destination" profile.destinationRule &&
      requireString handoff "source_operation" profile.sourceOperation &&
      requireInteger handoff "version" profile.version)
    "structured function handoff contract is incomplete or invalid"

/-- Neither argument nor result attributes, no `no_inline`, no visibility. -/
def Function.isPlain (f : Function) : Bool :=
  f.argAttrs.isNone && f.resAttrs.isNone && !f.noInline && f.visibility.isNone

def verifySourceFunction : TopLevel → Except String Unit
  | .other _ => .error "semantic source module may contain only func.func sites"
  | .func f => do
    requireExactNames f.attributes.entries semanticFunctionFields "semantic source function"
    require f.isPlain ("semantic source functions may not carry argument/result " ++
      "optimizer attributes, no_inline, or explicit visibility")

def verifyStructuredHandoffSourceEnvelopeV1 (dialect : List Ty → Op → Bool) (source : Module) :
    Except String Unit := do
  require (moduleVerified dialect source)
    "semantic source envelope failed upstream MLIR verification"
  requireExactNames source.attributes.entries semanticModuleFields "semantic source module"
  requireStringField source "mdsl.bridge_schema" "matcore-mlir-semantic-v1"
    "semantic source module"
  source.body.forM verifySourceFunction

/-- `selectExactSemanticContractV1`. The fields it selects are all that the operation has. -/
def selectExactSemanticContractV1 (operation : Op) (names : List String) (context : String) :
    Except String Dict := do
  match names.find? fun name => (operation.attributes.get name).isNone with
  | some name => .error (context ++ " is missing field '" ++ name ++ "'")
  | none =>
    requireExactNames operation.attributes.entries names context
    return operation.attributes

/-- The attributes of the target, which has none before. -/
def certificateAttributes (source : Dict) (profile : Profile) : Dict :=
  (((((Dictionary.empty.copy source moduleMap).setInteger "mdsl.analysis_only" 1 1).setString
    "mdsl.producer" (ascii profile.producer)).setString
    "mdsl.execution_authority" (ascii profile.authority)).setString
    "mdsl.structured_handoff_schema" (ascii profile.schema)).setInteger
    "mdsl.structured_handoff_version" 32 profile.version

def initializeStructuredHandoffCertificateV1 (dialect : List Ty → Op → Bool) (source : Module)
    (profile : Profile) : Except String Dict := do
  verifyProfile profile
  verifyStructuredHandoffSourceEnvelopeV1 dialect source
  return certificateAttributes source.attributes profile

def OpKind.name : OpKind → Bytes
  | .gemm => ascii "mdsl.gemm"
  | .constant _ => ascii "arith.constant"
  | .fill _ => ascii "linalg.fill"
  | .matmul .. => ascii "linalg.matmul"
  | .funcReturn => ascii "func.return"
  | .other name => name

/-- `source_function.getBody().front().front()`, of a body with one block. -/
def Function.firstOp (f : Function) : Option Op :=
  match f.blocks with
  | [block] => block.ops.head?
  | _ => none

/-- The attributes of the site, which has none before. -/
def siteCertificate (source : Function) (contract : Dict) (site : Bytes) (profile : Profile) : Dict :=
  ((((Dictionary.empty.setFrom "mdsl.capture_ordinal" source.attributes
    "mdsl.capture_ordinal").setString "mdsl.site_id" site).setString
    "mdsl.source_semantic_symbol" source.name).set
    "mdsl.semantic_contract" contract.attr contract.attr_canonical).set
    "mdsl.structured_handoff" (handoffAttribute profile).attr (handoffAttribute profile).attr_canonical

def attachStructuredHandoffSiteCertificateV1 (source : Function) (contract : Dict) (site : Bytes)
    (profile : Profile) : Except String Dict := do
  verifyProfile profile
  require (!site.isEmpty) "structured handoff site certificate input is incomplete"
  require (getString source.attributes.entries "mdsl.site_id" = some site &&
      source.firstOp.map (·.kind.name) = some (ascii profile.sourceOperation))
    "structured handoff site does not match the declared source operation/site identity"
  return siteCertificate source contract site profile

def verifyStructuredModuleIdentityFields (m : Module) (profile : Profile)
    (artifactProducerField context : String) : Except String Unit := do
  let d := m.attributes.entries
  require (getInteger d "mdsl.analysis_only" = some (1, 1) &&
      (getString d "mdsl.source_producer").any isCaptureProducer &&
      (getString d "mdsl.source_file").any (endsWith · ".mdsl") &&
      (getString d "mdsl.translation_unit").any (fun text => !text.isEmpty) &&
      (getString d "mdsl.numerical_profile").any fun text => !text.isEmpty)
    (context ++ " capture identity is invalid")
  requireStringField m "mdsl.capture_schema" "matcore-ir-v1" context
  requireI32 m "mdsl.capture_version" 1 context
  requireStringField m "mdsl.execution_intent" "generic" context
  requireStringField m artifactProducerField profile.producer context
  requireStringField m "mdsl.execution_authority" profile.authority context
  requireStringField m "mdsl.source_bridge_schema" "matcore-mlir-semantic-v1" context
  requireStringField m "mdsl.structured_handoff_schema" profile.schema context
  requireI32 m "mdsl.structured_handoff_version" profile.version context
  requireI32 m "mdsl.source_semantic_version" 1 context

def verifyStructuredModuleFields (m : Module) (profile : Profile) : Except String Unit := do
  requireExactNames m.attributes.entries structuredModuleFields "structured handoff module"
  verifyStructuredModuleIdentityFields m profile "mdsl.producer" "structured handoff module"

/-- What the verifier of a site hands on. -/
structure VerifiedSite where
  siteId : Bytes
  sourceSemanticSymbol : Bytes
  semanticContract : Dict

def verifyStructuredHandoffSiteCertificateV1 (dialect : List Ty → Op → Bool) (f : Function)
    (ordinal : ℕ) (profile : Profile) : Except String VerifiedSite := do
  verifyProfile profile
  require (functionVerified dialect f)
    "structured handoff function must be attached and pass upstream MLIR verification"
  let d := f.attributes.entries
  requireExactNames d structuredFunctionFields "structured handoff function"
  require f.isPlain ("structured handoff functions may not carry argument/result " ++
    "optimizer attributes, no_inline, or explicit visibility")
  match getString d "mdsl.site_id", getString d "mdsl.source_semantic_symbol",
      f.attributes.sub "mdsl.semantic_contract", getDictionary d "mdsl.structured_handoff" with
  | some site, some sourceSymbol, some contract, some handoff =>
    require (!site.isEmpty && getInteger d "mdsl.capture_ordinal" = some (64, (ordinal : ℤ)) &&
        !contract.names.isEmpty && f.isPublic)
      "structured handoff function identity is incomplete or unordered"
    require (f.name = ascii profile.structuredFunctionPrefix ++ site &&
        sourceSymbol = ascii profile.semanticFunctionPrefix ++ site)
      "structured function/source symbols must match the exact semantic site identity"
    verifyHandoffAttribute handoff profile
    return ⟨site, sourceSymbol, contract⟩
  | _, _, _, _ => .error "structured handoff function identity is incomplete or unordered"

/-- The loop over the sites, each checked with its place. -/
def forSites (check : ℕ → TopLevel → Except String Unit) : ℕ → List TopLevel → Except String Unit
  | _, [] => .ok ()
  | ordinal, operation :: rest => do
    check ordinal operation
    forSites check (ordinal + 1) rest

def verifyCertifiedSite (dialect : List Ty → Op → Bool) (profile : Profile) (ordinal : ℕ) :
    TopLevel → Except String Unit
  | .other _ => .error "structured handoff module may contain only func.func sites"
  | .func f => do
    let _ ← verifyStructuredHandoffSiteCertificateV1 dialect f ordinal profile

def verifyStructuredHandoffCertificateEnvelopeV1 (dialect : List Ty → Op → Bool) (m : Module)
    (profile : Profile) : Except String Unit := do
  verifyProfile profile
  require (moduleVerified dialect m)
    "structured handoff certificate failed upstream MLIR verification"
  verifyStructuredModuleFields m profile
  require (!m.body.isEmpty) "structured handoff module requires at least one site"
  forSites (verifyCertifiedSite dialect profile) 0 m.body

/-- What is printed into a fingerprint. -/
structure Fingerprint where
  moduleFields : List (String × Attr)
  sourceOperation : String
  sourceSymbol : Bytes
  site : Bytes
  inputs : List Ty
  results : List Ty
  location : Location
  argumentLocations : List Location
  contract : Entries Ty

def missingField (name : String) : String :=
  "semantic fingerprint is missing module field '" ++ name ++ "'"

/-- The fields, or the name of the first that is missing. -/
def collectFields : List (String × Option Attr) → Except String (List (String × Attr))
  | [] => .ok []
  | (name, none) :: _ => .error (missingField name)
  | (name, some value) :: rest => do
    let fields ← collectFields rest
    return (name, value) :: fields

def computeSemanticFingerprint (fields : List (String × Option Attr)) (sourceOperation : String)
    (sourceSymbol : Bytes) (site : Option Bytes) (f : Function) (contract : Option (Entries Ty)) :
    Except String Fingerprint :=
  match site, contract with
  | some site, some contract => do
    require (sourceOperation ≠ "" && !sourceSymbol.isEmpty)
      "semantic fingerprint input is incomplete"
    match f.blocks with
    | [block] =>
      require (block.arguments.length = f.inputs.length)
        "semantic fingerprint entry arguments do not match the retained function type"
      let fields ← collectFields fields
      return ⟨fields, sourceOperation, sourceSymbol, site, f.inputs, f.results, f.location,
        block.arguments.map Prod.snd, contract⟩
    | _ => .error "semantic fingerprint entry arguments do not match the retained function type"
  | _, _ => .error "semantic fingerprint input is incomplete"

def computeSourceSemanticFingerprintV1 (dialect : List Ty → Op → Bool) (m : Module) (f : Function)
    (contract : Dict) (sourceOperation : String) : Except String Fingerprint := do
  verifyStructuredHandoffSourceEnvelopeV1 dialect m
  match f.firstOp with
  | some operation =>
    require (operation.kind.name = ascii sourceOperation)
      "semantic fingerprint source operation identity does not match"
    require (operation.attributes = contract)
      "semantic fingerprint contract is not the exact source operation contract"
    computeSemanticFingerprint
      (moduleMap.map (fun field => (field.1, m.attributes.get field.1)) ++
        [("mdsl.capture_ordinal", f.attributes.get "mdsl.capture_ordinal")])
      sourceOperation f.name (getString f.attributes.entries "mdsl.site_id") f
      (some contract.entries)
  | none => .error "semantic fingerprint source operation identity does not match"

def computeStructuredSemanticFingerprintV1 (dialect : List Ty → Op → Bool) (m : Module)
    (f : Function) (sourceOperation : String) : Except String Fingerprint := do
  require (moduleVerified dialect m)
    "structured semantic fingerprint module failed upstream MLIR verification"
  requireExactNames f.attributes.entries structuredFunctionFields
    "structured semantic fingerprint function"
  let d := f.attributes.entries
  require (((getDictionary d "mdsl.structured_handoff").bind (getString · "source_operation")) =
      some (ascii sourceOperation))
    "structured semantic fingerprint source operation does not match its certificate"
  computeSemanticFingerprint
    (moduleMap.map (fun field => (field.1, m.attributes.get field.2)) ++
      [("mdsl.capture_ordinal", f.attributes.get "mdsl.capture_ordinal")])
    sourceOperation ((getString d "mdsl.source_semantic_symbol").getD [])
    (getString d "mdsl.site_id") f (getDictionary d "mdsl.semantic_contract")

def verifyExactEntryArgumentLocations (source structured : Function) : Except String Unit :=
  match source.blocks, structured.blocks with
  | [sourceEntry], [structuredEntry] =>
    if sourceEntry.arguments.length ≠ structuredEntry.arguments.length then
      .error "structured entry-argument count differs from its semantic source"
    else require (sourceEntry.arguments.map Prod.snd = structuredEntry.arguments.map Prod.snd)
      "structured entry-argument location differs from its semantic source"
  | _, _ => .error "paired semantic functions require one entry block"

section
variable (dialect : List Ty → Op → Bool) (digest : Fingerprint → Bytes)
  (selector : Function → Except String Dict) (profile : Profile) (semantic structured : Module)

/-- The body of the loop over pairs of sites. -/
def verifyPair (ordinal : ℕ) (source target : Function) : Except String Unit := do
  let sourceContract ← selector source
  let verified ← verifyStructuredHandoffSiteCertificateV1 dialect target ordinal profile
  require (getString source.attributes.entries "mdsl.site_id" = some verified.siteId &&
      verified.sourceSemanticSymbol = source.name && target.inputs = source.inputs &&
      target.results = source.results && target.location = source.location &&
      verified.semanticContract = sourceContract)
    "structured function is not an exact projection of its semantic source"
  verifyExactEntryArgumentLocations source target
  let sourceFingerprint ← computeSourceSemanticFingerprintV1 dialect semantic source sourceContract
    profile.sourceOperation
  let structuredFingerprint ← computeStructuredSemanticFingerprintV1 dialect structured target
    profile.sourceOperation
  require (digest sourceFingerprint = digest structuredFingerprint)
    "structured semantic fingerprint differs from its source"

def verifyPairs : ℕ → List TopLevel → List TopLevel → Except String Unit
  | ordinal, .func source :: sources, .func target :: targets => do
    verifyPair dialect digest selector profile semantic structured ordinal source target
    verifyPairs (ordinal + 1) sources targets
  | _, [], [] => .ok ()
  | _, _, _ => .error "structured handoff changed the number of semantic sites"

def verifyStructuredHandoffCertificateMatchesSourceV1 : Except String Unit := do
  verifyStructuredHandoffSourceEnvelopeV1 dialect semantic
  verifyStructuredHandoffCertificateEnvelopeV1 dialect structured profile
  match moduleMap.find? fun field =>
      semantic.attributes.get field.1 ≠ structured.attributes.get field.2 with
  | some field => .error ("structured handoff module metadata differs from semantic source field '" ++
      field.1 ++ "'")
  | none =>
    verifyPairs dialect digest selector profile semantic structured 0 semantic.body structured.body

end

end Matcore.Handoff
