import Matcore.Ir.Reader

/-!
# Host code generation

`generate` (`codegen.cpp`): the host source with its recognised calls rewritten in place, and the
three generated sources that go with it. The host source is bytes, as the code reads it; what the
code writes itself is a `String`.
-/

namespace Matcore.Codegen

open Ir (Text Operation)

def newline : UInt8 := 10

/-- The bytes of a string of the code, which holds UTF-8. -/
def bytes (text : String) : Text := text.toList.flatMap String.utf8EncodeChar

/-- Every string of `texts` on a line of its own. -/
def lines (texts : List String) : String := String.join (texts.map (· ++ "\n"))

def siteFunction (operation : Operation) : String := "__matcore_call_site_" ++ operation.siteId

def backendFunction (siteId : String) : String := "matcore_generated_backend_" ++ siteId ++ "_v0"

def validIdentifier (value : String) : Bool :=
  match value.toList with
  | [] => false
  | front :: rest => (front.isAlpha || front = '_') && rest.all fun c => c.isAlphanum || c = '_'

def safeDirectiveText (value : String) : Bool :=
  !value.toList.contains '\n' && !value.toList.contains '\r'

def escapeCppString (value : String) : String :=
  String.ofList (value.toList.flatMap fun c => if c = '\\' || c = '"' then ['\\', c] else [c])

def declaration (operation : Operation) (withDefault : Bool) : String :=
  "void " ++ siteFunction operation ++
    "(::matcore::mdsl::out_arg output, " ++
    "const ::matcore::mdsl::matrix_view &lhs, " ++
    "const ::matcore::mdsl::matrix_view &rhs, " ++
    "::matcore::mdsl::policy execution_policy" ++
    (if withDefault then " = \x7b\x7d" else "") ++ ")"

def generateSites (module : Ir.Module) : String :=
  lines ["#pragma once", "", "#include <matcore/mdsl.h>", ""] ++
    lines (module.operations.map fun operation => declaration operation true ++ ";")

def generateHostPreamble (module : Ir.Module) : String :=
  lines
    ["// MDSLC generated global call-site declarations.",
     "namespace matcore::mdsl \x7b",
     "struct matrix_view;",
     "struct out_arg;",
     "struct policy;",
     "\x7d // namespace matcore::mdsl",
     ""] ++
    lines (module.operations.map fun operation => declaration operation false ++ ";") ++ "\n"

/-- What the stubs start with when there are call sites: the includes and the weak attribute. -/
def stubsProlog : String :=
  lines
    ["",
     "#include <cstdint>",
     "#include <stdexcept>",
     "#include <string>",
     "",
     "#if defined(__clang__) || defined(__GNUC__)",
     "// Clang lowers this to ELF weak or COFF WeakExternal. The host,",
     "// stub, and backend objects must still be linked together.",
     "#define MATCORE_MDSLC_WEAK __attribute__((weak))",
     "#else",
     "#error \"MDSLC generated weak sites require Clang/GNU attributes\"",
     "#endif",
     ""]

/-- The helpers of the stubs, one C++ function each. -/
def stubsHelpers : String :=
  lines
    ["",
     "namespace \x7b",
     "matcore_tensor_desc_v0 make_tensor_descriptor(",
     "    const matcore::mdsl::matrix_view &view,",
     "    matcore_mutability_v0 mutability) noexcept \x7b",
     "  matcore_tensor_desc_v0 descriptor\x7b\x7d;",
     "  descriptor.abi_version = MATCORE_RUNTIME_ABI_VERSION_V0;",
     "  descriptor.struct_size =",
     "      static_cast<std::uint32_t>(sizeof(matcore_tensor_desc_v0));",
     "  descriptor.data = view.data;",
     "  descriptor.dtype = MATCORE_DTYPE_F32_V0;",
     "  descriptor.rank = 2;",
     "  descriptor.dims[0] = view.rows;",
     "  descriptor.dims[1] = view.columns;",
     "  descriptor.strides[0] = view.columns;",
     "  descriptor.strides[1] = 1;",
     "  descriptor.memory_space = MATCORE_MEMORY_SPACE_HOST_V0;",
     "  descriptor.mutability = mutability;",
     "  return descriptor;",
     "\x7d",
     "",
     "matcore_policy_v0 make_policy(",
     "    matcore::mdsl::policy execution_policy) noexcept \x7b",
     "  matcore_policy_v0 policy\x7b\x7d;",
     "  policy.abi_version = MATCORE_RUNTIME_ABI_VERSION_V0;",
     "  policy.struct_size =",
     "      static_cast<std::uint32_t>(sizeof(matcore_policy_v0));",
     "  switch (execution_policy.target) \x7b",
     "  case matcore::mdsl::target::cpu:",
     "    policy.target = MATCORE_TARGET_CPU_V0;",
     "    break;",
     "  case matcore::mdsl::target::cuda:",
     "    policy.target = MATCORE_TARGET_CUDA_V0;",
     "    break;",
     "  default:",
     "    policy.target = MATCORE_TARGET_INVALID_V0;",
     "    break;",
     "  \x7d",
     "  switch (execution_policy.fallback) \x7b",
     "  case matcore::mdsl::fallback::error:",
     "    policy.fallback = MATCORE_FALLBACK_ERROR_V0;",
     "    break;",
     "  default:",
     "    policy.fallback = MATCORE_FALLBACK_INVALID_V0;",
     "    break;",
     "  \x7d",
     "  return policy;",
     "\x7d",
     "",
     "void throw_on_error(const matcore_status_v0 &status,",
     "                    const char *source_location) \x7b",
     "  if (status.code != MATCORE_STATUS_OK_V0) \x7b",
     "    const char *message = status.message != nullptr",
     "                              ? status.message",
     "                              : \"Matcore runtime failure\";",
     "    throw std::runtime_error(std::string(source_location) +",
     "                             \": \" + message);",
     "  \x7d",
     "\x7d",
     "\x7d // namespace",
     ""]

def stub (operation : Operation) : String :=
  lines
    ["MATCORE_MDSLC_WEAK " ++ declaration operation false ++ " \x7b",
     "  const ::matcore::mdsl::matrix_view empty_output\x7b\x7d;",
     "  const ::matcore::mdsl::matrix_view &output_view =",
     "      output.value != nullptr ? *output.value : empty_output;",
     "  matcore_tensor_desc_v0 output_descriptor =",
     "      make_tensor_descriptor(output_view, MATCORE_MUTABILITY_READ_WRITE_V0);",
     "  matcore_tensor_desc_v0 lhs_descriptor =",
     "      make_tensor_descriptor(lhs, MATCORE_MUTABILITY_READ_ONLY_V0);",
     "  matcore_tensor_desc_v0 rhs_descriptor =",
     "      make_tensor_descriptor(rhs, MATCORE_MUTABILITY_READ_ONLY_V0);",
     "  matcore_policy_v0 runtime_policy = make_policy(execution_policy);",
     "  const matcore_status_v0 status = " ++ backendFunction operation.siteId ++
       "(&output_descriptor, &lhs_descriptor, &rhs_descriptor, &runtime_policy);",
     "  throw_on_error(status, \"" ++ escapeCppString operation.source.file ++ ":" ++
       toString operation.source.line.toNat ++ ":" ++ toString operation.source.column.toNat ++
       "\");",
     "\x7d"]

def generateStubs (module : Ir.Module) (sitesInclude : String) : String :=
  lines ["#include \"" ++ escapeCppString sitesInclude ++ "\"", "#include <matcore/runtime_c.h>"] ++
    if module.operations.isEmpty then
      lines ["", "// No Matcore call sites in this translation unit."]
    else
      stubsProlog ++
        lines (module.operations.map fun operation =>
          "extern \"C\" matcore_status_v0 " ++ backendFunction operation.siteId ++
            "(const matcore_tensor_desc_v0 *, const matcore_tensor_desc_v0 *, " ++
            "const matcore_tensor_desc_v0 *, const matcore_policy_v0 *) noexcept;") ++
        stubsHelpers ++ String.join (module.operations.map stub) ++
        lines ["", "#undef MATCORE_MDSLC_WEAK"]

inductive RuntimeDispatchBackendProducerV1 where
  | captureV0
  | matcoreMlirCpuV1
  deriving DecidableEq

def generateBackendText (siteIds : List String) (producer : RuntimeDispatchBackendProducerV1) :
    String :=
  lines ["#include <matcore/runtime_c.h>"] ++
    (if producer = .matcoreMlirCpuV1 then
      lines ["// Producer: Matcore MLIR CPU runtime-dispatch lowering v1."]
    else "") ++
    if siteIds.isEmpty then
      lines ["", "// No Matcore backend entries in this translation unit."]
    else
      lines
        ["",
         "#if defined(__clang__) || defined(__GNUC__)",
         "// Clang emits a COFF WeakExternal on Windows and an ELF weak",
         "// definition on Linux. This is not a DLL ABI boundary.",
         "#define MATCORE_MDSLC_WEAK __attribute__((weak))",
         "#else",
         "#error \"MDSLC generated weak backends require Clang/GNU attributes\"",
         "#endif",
         ""] ++
        String.join (siteIds.map fun siteId => lines
          ["extern \"C\" MATCORE_MDSLC_WEAK matcore_status_v0 " ++ backendFunction siteId ++
             "(const matcore_tensor_desc_v0 *output,",
           "    const matcore_tensor_desc_v0 *lhs,",
           "    const matcore_tensor_desc_v0 *rhs,",
           "    const matcore_policy_v0 *policy) noexcept \x7b",
           "  return matcore_runtime_gemm_f32_v0(output, lhs, rhs, policy);",
           "\x7d"]) ++
        lines ["", "#undef MATCORE_MDSLC_WEAK"]

/-- The loop over the backend entries, with the site IDs seen so far. -/
def verifySiteIds : List String → List String → Except String Unit
  | _, [] => .ok ()
  | seen, siteId :: rest => do
    Ir.failIf (!validIdentifier siteId || !Ir.validSiteId siteId)
      "runtime-dispatch backend site ID is not canonical"
    Ir.failIf (seen.contains siteId) "runtime-dispatch backend site ID is duplicated"
    verifySiteIds (siteId :: seen) rest

/-- An enumerator outside the two makes the code fail; the type here has no others. -/
def generateRuntimeDispatchBackendV1 (siteIds : List String)
    (producer : RuntimeDispatchBackendProducerV1) : Except String String := do
  verifySiteIds [] siteIds
  return generateBackendText siteIds producer

/-- `substr` of a position inside the text. -/
def substr (text : Text) (position count : UInt64) : Text :=
  (text.drop position.toNat).take count.toNat

def replace (text : Text) (position count : UInt64) (new : Text) : Text :=
  text.take position.toNat ++ new ++ text.drop (position.toNat + count.toNat)

def newlines (text : Text) : ℕ := text.count newline

/-- The arguments with what stands between them. -/
def argumentTexts (source : Text) : List Ir.SourceRange → Text
  | [] => []
  | [range] => substr source range.first (range.past - range.first)
  | range :: next :: rest =>
    substr source range.first (range.past - range.first) ++
      substr source range.past (next.first - range.past) ++ argumentTexts source (next :: rest)

/-- The text for one call, before the padding. A verified operation has arguments. -/
def replacement (source : Text) (operation : Operation) : Text :=
  let call := operation.callRange
  let arguments := operation.argumentRanges
  let discardedCallPrefix := substr source call.first ((arguments.headD {}).first - call.first)
  let lastArgument := arguments.getLastD {}
  bytes ("::" ++ siteFunction operation ++ "(") ++
    List.replicate (newlines discardedCallPrefix) newline ++ argumentTexts source arguments ++
    (if arguments.length = 3 then bytes ", ::matcore::mdsl::policy\x7b\x7d" else []) ++
    substr source lastArgument.past (call.past - lastArgument.past)

/-- The body of the loop over the calls. -/
def rewriteCall (source rewritten : Text) (operation : Operation) : Except String Text :=
  let call := operation.callRange
  let originalNewlines := newlines (substr source call.first (call.past - call.first))
  let text := replacement source operation
  if newlines text > originalNewlines then
    .error "generated call-site replacement cannot preserve source line mapping"
  else
    .ok (replace rewritten call.first (call.past - call.first)
      (text ++ List.replicate (originalNewlines - newlines text) newline))

/-- From the last call to the first, so that the ranges stay those of the original source. -/
def rewriteCalls (source : Text) (operations : List Operation) : Except String Text :=
  operations.reverse.foldlM (rewriteCall source) source

/-- What precedes the rewritten source when it has calls. -/
def hostHeader (module : Ir.Module) : Text :=
  bytes (generateHostPreamble module ++
    "#line 1 \"" ++ escapeCppString module.sourceFile ++ "\"\n")

def utf8Bom : Text := [0xef, 0xbb, 0xbf]

def rewrittenHost (module : Ir.Module) (rewritten : Text) : Text :=
  if module.operations.isEmpty then rewritten
  else if utf8Bom.isPrefixOf rewritten then
    utf8Bom ++ hostHeader module ++ rewritten.drop utf8Bom.length
  else hostHeader module ++ rewritten

structure Artifacts where
  rewrittenHost : Text
  sitesHeader : String
  stubsSource : String
  backendSource : String

/-- The checks of one operation against the source buffer. -/
def checkRanges (source : Text) (operation : Operation) : Except String Unit := do
  Ir.failIf (!validIdentifier operation.siteId)
    "operation site ID is not a valid generated identifier"
  Ir.failIf (operation.callRange.past.toNat > source.length)
    "operation call range exceeds the original source buffer"
  Ir.failIf (operation.argumentRanges.any fun range => range.past.toNat > source.length)
    "operation argument range exceeds the original source buffer"

def generate (module : Ir.Module) (source : Text) (sitesInclude : String) :
    Except String Artifacts := do
  match Ir.verify module with
  | .error error => .error ("cannot generate from invalid Matcore IR: " ++ error)
  | .ok () =>
    Ir.failIf (!safeDirectiveText module.sourceFile || !safeDirectiveText sitesInclude ||
        sitesInclude.isEmpty)
      "source and generated include paths must be nonempty single-line text"
    module.operations.forM (checkRanges source)
    let rewritten ← rewriteCalls source module.operations
    let backendSource ←
      generateRuntimeDispatchBackendV1 (module.operations.map (·.siteId)) .captureV0
    return {
      rewrittenHost := rewrittenHost module rewritten
      sitesHeader := generateSites module
      stubsSource := generateStubs module sitesInclude
      backendSource := backendSource }

end Matcore.Codegen
