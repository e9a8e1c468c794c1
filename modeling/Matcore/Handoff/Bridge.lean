import Matcore.Handoff.Gemm

/-!
# Verified modules of sites

`mlir::verify` and `verifyMatcoreV1BridgeModule` of `MatcoreV1Bridge.cpp`. What the dialects of MLIR
check of their own operations is a parameter, `dialect`, of the types of the values before the
operation.
-/

namespace Matcore.Handoff

open Mlir (Bytes ascii)
open AttributeDict (Entries)

def OpKind.isTerminator : OpKind → Bool
  | .funcReturn | .other _ => true
  | _ => false

section
variable (dialect : List Ty → Op → Bool)

/-- The operands of a return have the types of the function's results. -/
def opVerified (results : List Ty) (scope : List Ty) (op : Op) : Bool :=
  op.operands.all (· < scope.length) &&
    match op.kind with
    | .gemm => GemmOp.verify scope op
    | .constant value => op.operands.isEmpty && op.results = [value.type] && op.region.isEmpty
    | .funcReturn =>
      op.operands.map (scope[·]?) = results.map some && op.results.isEmpty && op.region.isEmpty
    | .fill _ | .matmul .. | .other _ => dialect scope op

def opsVerified (results : List Ty) : List Ty → List Op → Bool
  | _, [] => true
  | scope, op :: rest =>
    opVerified dialect results scope op && opsVerified results (scope ++ op.results) rest

def blockVerified (results : List Ty) (block : Block) : Bool :=
  opsVerified dialect results (block.arguments.map Prod.fst) block.ops &&
    (block.ops.getLast?).any fun op => op.kind.isTerminator

/-- The entry block has the arguments of the function. -/
def functionVerified (f : Function) : Bool :=
  (match f.blocks with
    | [] => true
    | entry :: _ => entry.arguments.map Prod.fst = f.inputs) &&
    f.blocks.all (blockVerified dialect f.results)

/-- A symbol is defined once. -/
def moduleVerified (m : Module) : Bool :=
  (m.functions.map (·.name)).Nodup && m.functions.all (functionVerified dialect)

end

def explicitGemmF32Profile : String := "explicit-gemm-f32-v1"

def requireModuleString (m : Module) (name expected : String) : Except String Unit :=
  if requireString m.attributes.entries name expected then .ok ()
  else .error ("Matcore semantic module field '" ++ name ++ "' is missing or invalid")

/-- `StringRef::ends_with`. -/
def endsWith (value : Bytes) (text : String) : Bool := (ascii text).isSuffixOf value

/-- The producers of captures. -/
def isCaptureProducer (producer : Bytes) : Bool :=
  producer = ascii "clang-libtooling-v1" || producer = ascii "clang-ast-json-bootstrap-v0"

def captureMetadata (d : Entries Ty) : Bool :=
  getInteger d "mdsl.capture_version" = some (32, 1) &&
    getInteger d "mdsl.semantic_version" = some (32, 1) &&
    (getString d "mdsl.producer").any isCaptureProducer &&
    (getString d "mdsl.source_file").any (endsWith · ".mdsl") &&
    (getString d "mdsl.translation_unit").any fun text => !text.isEmpty

/-- The two operations of the body of a site. -/
def siteBody (f : Function) : Option (Block × Op × Op) :=
  match f.blocks with
  | [block] =>
    match block.ops with
    | [first, last] => if block.arguments.length = 3 then some (block, first, last) else none
    | _ => none
  | _ => none

/-- The identity of a site, behind the `sites` before it. -/
def siteIdentity (sites : List Bytes) (ordinal : ℕ) (f : Function) : Option Bytes :=
  match getString f.attributes.entries "mdsl.site_id" with
  | some site =>
    if !sites.contains site &&
        getInteger f.attributes.entries "mdsl.capture_ordinal" = some (64, (ordinal : ℤ)) &&
        f.name = ascii "__matcore_semantic_" ++ site && f.isPublic
    then some site else none
  | none => none

/-- The body of the loop over the functions. -/
def verifySite (sourceFile : Bytes) (sites : List Bytes) (ordinal : ℕ) :
    TopLevel → Except String Bytes
  | .other _ => .error "Matcore semantic module may contain only per-site func.func ops"
  | .func f =>
    match siteIdentity sites ordinal f with
    | none => .error "Matcore semantic functions require unique ordered site identity"
    | some site =>
      match siteBody f with
      | none => .error "each Matcore semantic site must have one gemm and one return"
      | some (block, gemm, last) =>
        if !block.arguments.all fun argument => argument.2 = f.location then
          .error ("Matcore semantic function arguments must retain the exact " ++
            "authenticated source location")
        else if gemm.kind ≠ .gemm || last.kind ≠ .funcReturn ||
            getString gemm.attributes.entries "site_id" ≠ some site || gemm.operands ≠ [0, 1, 2] ||
            last.operands ≠ [3] then
          .error "Matcore semantic site must return the destination-tied GEMM SSA result"
        else if f.location ≠ gemm.location || last.location ≠ gemm.location then
          .error ("Matcore semantic function and return locations must retain the " ++
            "authenticated mdsl.gemm source location")
        else
          let field (dictionary name : String) : Option Bytes :=
            (getDictionary gemm.attributes.entries dictionary).bind (getString · name)
          if field "origin" "kind" ≠ some (ascii "explicit_call") ||
              field "provenance" "kind" ≠ some (ascii "explicit_call") ||
              field "provenance" "file" ≠ some sourceFile ||
              field "numerical" "profile" ≠ some (ascii explicitGemmF32Profile) then
            .error ("Matcore IR v1 bridge sites require authenticated explicit-call provenance " ++
              "from mdsl.source_file")
          else .ok site

/-- The loop, with the sites seen so far. -/
def verifySites (sourceFile : Bytes) : List Bytes → ℕ → List TopLevel → Except String Unit
  | _, _, [] => .ok ()
  | sites, ordinal, operation :: rest => do
    let site ← verifySite sourceFile sites ordinal operation
    verifySites sourceFile (site :: sites) (ordinal + 1) rest

def verifyMatcoreV1BridgeModule (dialect : List Ty → Op → Bool) (m : Module) :
    Except String Unit :=
  if !moduleVerified dialect m then
    .error "Matcore semantic module failed MLIR/dialect verification"
  else do
    requireModuleString m "mdsl.bridge_schema" "matcore-mlir-semantic-v1"
    requireModuleString m "mdsl.capture_schema" "matcore-ir-v1"
    requireModuleString m "mdsl.execution_intent" "generic"
    requireModuleString m "mdsl.numerical_profile" explicitGemmF32Profile
    if !captureMetadata m.attributes.entries then
      .error "Matcore semantic module capture metadata is incomplete or invalid"
    else
      verifySites ((getString m.attributes.entries "mdsl.source_file").getD []) [] 0 m.body

end Matcore.Handoff
