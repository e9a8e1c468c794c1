import Matcore.Engine.GraphIR
import Matcore.Lib.Texts

/-!
# The key of the execution cache

`buildExecutionCacheKey` of `cache_manager.cpp`, on all of a kernel that lowering may read. A string
is the list of its characters. A profile's canonical string is always `CanonicalTargetString`, and so
is left out, as are the addresses of tensors and the names of nodes, which only messages have.
-/

namespace Matcore.Engine.CacheKey

open Texts (natText intText)

/-- A `double`, and a `float` as one. -/
inductive Double where
  | finite (negative : Bool) (magnitude : ℚ≥0)
  | infinite (negative : Bool)
  | nan (negative : Bool)

def roundHalfEven (q : ℚ≥0) : ℕ :=
  let n := q.num / q.den
  let r := q.num % q.den
  if 2 * r < q.den then n else if q.den < 2 * r then n + 1 else n + n % 2

/-- The six digits behind the point, of a number below a million. -/
def sixDigits (n : ℕ) : List Char :=
  [n / 100000, n / 10000, n / 1000, n / 100, n / 10, n].map fun d => Nat.digitChar (d % 10)

def signText (negative : Bool) : List Char := if negative then ['-'] else []

/-- `std::to_string`, which prints six digits behind the point. -/
def Double.text : Double → List Char
  | finite negative magnitude =>
    let micros := roundHalfEven (magnitude * 1000000)
    signText negative ++ natText (micros / 1000000) ++ ".".toList ++ sixDigits (micros % 1000000)
  | infinite negative => signText negative ++ "inf".toList
  | nan negative => signText negative ++ "nan".toList

/-- What is printed of the magnitude begins with a digit or a letter. -/
def magnitudeText : Double → List Char
  | .finite _ magnitude =>
    let micros := roundHalfEven (magnitude * 1000000)
    natText (micros / 1000000) ++ ".".toList ++ sixDigits (micros % 1000000)
  | .infinite _ => "inf".toList
  | .nan _ => "nan".toList

/-- The value that the six digits show. -/
def Double.rounded : Double → Double
  | finite negative magnitude =>
    finite negative (roundHalfEven (magnitude * 1000000) / 1000000)
  | d => d

structure QuantizationParams where
  enabled : Bool := false
  scale : Double := .finite false 1
  zeroPoint : ℤ := 0

structure LoopRange where
  var : String
  lower : ℤ
  upper : ℤ
  step : ℤ

inductive StorageHint where
  | auto | register | sharedMem | vram
  deriving DecidableEq

inductive EscapeKind where
  | noEscape | escapeToVRAM
  deriving DecidableEq

structure TensorDesc where
  symbol : String
  dtype : TensorDType
  shape : List ℤ
  strides : List ℤ := []
  valueKind : ValueKind
  storageHint : StorageHint := .auto
  escape : EscapeKind := .noEscape
  isParameter : Bool := false
  isOutput : Bool := false
  isDeviceResident : Bool := false
  producer : Option ℕ := none
  consumers : List ℕ := []

inductive NodeAttrs where
  | matmul (lhs rhs : OperandRef) (accumulateDtype : TensorDType) (allowSplitK : Bool)
  | elementwise (kind : ElementwiseKind) (inputs : List ℕ) (scalarImmediates : List Double)
      (allowInplace : Bool)
  | transpose (input : ℕ)
  | cast (input : ℕ) (targetDtype : TensorDType)
  | reduce (kind : ReductionKind) (input : ℕ) (axis : ReductionAxisKind) (keepdim : Bool)
  | softmax (input : ℕ) (axis : ℤ) (stable causal : Bool)
  | store (input outputTensor : ℕ)

structure KernelNode where
  id : ℕ
  kind : OpKind
  inputs : List ℕ
  outputs : List ℕ
  attrs : NodeAttrs
  sideEffectFree : Bool := true

structure KernelGraphIR where
  values : List TensorDesc
  nodes : List KernelNode
  inputValues : List ℕ
  outputValues : List ℕ
  topoOrder : List ℕ

inductive RegionOpKind where
  | blockAttnRes
  deriving DecidableEq

structure BlockAttnResAttrs where
  blocks : ℕ
  partialValue : ℕ
  query : ℕ
  blockCount : ℤ
  hasPartial : Bool
  eps : Double

structure RegionNode where
  id : ℕ
  kind : RegionOpKind
  inputs : List ℕ
  outputs : List ℕ
  attrs : BlockAttnResAttrs

structure RegionIR where
  values : List TensorDesc
  nodes : List RegionNode
  inputValues : List ℕ
  outputValues : List ℕ
  topoOrder : List ℕ

inductive KernelIRVersion where
  | linearV1 | graphV2 | regionV1

structure KernelIR where
  version : KernelIRVersion := .linearV1
  kernelName : String
  params : List String := []
  loops : List LoopRange := []
  ops : List KernelOp := []
  graph : Option KernelGraphIR := none
  region : Option RegionIR := none
  globalQuantization : QuantizationParams := {}

structure RuntimeTensorView where
  symbol : String
  dtype : TensorDType
  shape : List ℤ
  strides : List ℤ := []
  isDeviceResident : Bool := false
  quantization : QuantizationParams := {}

/-- The form of a kernel that is lowered. -/
inductive Program where
  | region (r : RegionIR)
  | graph (g : KernelGraphIR)
  | linear (ops : List KernelOp)

def KernelIR.program (kernel : KernelIR) : Program :=
  match kernel.version, kernel.region, kernel.graph with
  | .regionV1, some r, _ => .region r
  | .graphV2, _, some g => .graph g
  | _, _, _ => .linear kernel.ops

structure RequestedTargetProfile where
  kind : TargetKind
  nvidiaSmMajor : Option ℕ := none
  nvidiaSmMinor : Option ℕ := none
  amdChip : String := ""

def canonicalTargetName (kind : TargetKind) : String :=
  match normalizeTarget kind with
  | .x86Auto => "x86-auto"
  | .x86AVX2 => "x86-avx2"
  | .x86AVX512 => "x86-avx512"
  | .nvidiaDGPU => "nvidia-dgpu"
  | .amdIGPU => "amd-igpu"
  | .amdNPU => "amd-npu"
  | .arm => "arm"
  | .tpu => "tpu"
  | .nvptx | .amdgcn | .npu => "unknown"

def CanonicalTargetString (profile : RequestedTargetProfile) : List Char :=
  (canonicalTargetName profile.kind).toList ++
    match normalizeTarget profile.kind, profile.nvidiaSmMajor, profile.nvidiaSmMinor with
    | .nvidiaDGPU, some major, some minor => ":sm_".toList ++ natText major ++ natText minor
    | .amdIGPU, _, _ =>
      if profile.amdChip = "" then [] else ":".toList ++ profile.amdChip.toList
    | _, _, _ => []

inductive X86Tier where
  | avx512 | avx2 | baseline

structure X86TargetProfile where
  tier : X86Tier
  cpu : String
  features : String

def X86Tier.text : X86Tier → List Char
  | .avx512 => "x86-tier=avx512".toList
  | .avx2 => "x86-tier=avx2".toList
  | .baseline => "x86-tier=baseline".toList

def X86TargetProfile.cacheTag (profile : X86TargetProfile) : List Char :=
  profile.tier.text ++ "|cpu=".toList ++ profile.cpu.toList ++ "|mattr=".toList ++
    profile.features.toList

def flagText (b : Bool) (text : String) : List Char := if b then text.toList else []

def boolText (b : Bool) : List Char := if b then ['1'] else ['0']

/-- Numbers, each with a mark behind it. -/
def idsText (ids : List ℕ) (mark : Char) : List Char := ids.flatMap fun n => natText n ++ [mark]

def dimsText (dims : List ℤ) : List Char := dims.flatMap fun d => intText d ++ [',']

def flagsText (v : TensorDesc) : List Char :=
  flagText v.isParameter ":p" ++ flagText v.isOutput ":o" ++ flagText v.isDeviceResident ":dev"

def regionValueText (v : TensorDesc) : List Char :=
  ";v:".toList ++ v.symbol.toList ++ ":".toList ++ natText v.dtype.ctorIdx ++ ":".toList ++
    natText v.valueKind.ctorIdx ++ ":s=".toList ++ dimsText v.shape ++ flagsText v

def regionNodeText (n : RegionNode) : List Char :=
  ";rn:".toList ++ natText n.id ++ ":".toList ++ natText n.kind.ctorIdx ++ ":in=".toList ++
    idsText n.inputs ',' ++ ":out=".toList ++ idsText n.outputs ',' ++ ":attr=bar:".toList ++
    natText n.attrs.blocks ++ ",".toList ++ natText n.attrs.partialValue ++ ",".toList ++
    natText n.attrs.query ++ ",".toList ++ intText n.attrs.blockCount ++ ",".toList ++
    boolText n.attrs.hasPartial ++ ",".toList ++ n.attrs.eps.text

def regionText (r : RegionIR) : List Char :=
  "|rv1|nv=".toList ++ natText r.values.length ++ r.values.flatMap regionValueText ++
    "|iv=".toList ++ idsText r.inputValues ',' ++ "|ov=".toList ++ idsText r.outputValues ',' ++
    "|topo=".toList ++ idsText r.topoOrder ',' ++ "|nn=".toList ++ natText r.nodes.length ++
    r.nodes.flatMap regionNodeText

def graphValueText (v : TensorDesc) : List Char :=
  ";v:".toList ++ v.symbol.toList ++ ":".toList ++ natText v.dtype.ctorIdx ++ ":".toList ++
    natText v.valueKind.ctorIdx ++ ":".toList ++ natText v.storageHint.ctorIdx ++ ":".toList ++
    natText v.escape.ctorIdx ++ ":s=".toList ++ dimsText v.shape ++ ":t=".toList ++
    dimsText v.strides ++ flagsText v

def operandText (o : OperandRef) : List Char :=
  natText o.valueId ++ "/".toList ++ boolText o.transposeLast2

def NodeAttrs.text : NodeAttrs → List Char
  | matmul lhs rhs accumulateDtype allowSplitK =>
    "mm:".toList ++ operandText lhs ++ ",".toList ++ operandText rhs ++ ",".toList ++
      natText accumulateDtype.ctorIdx ++ ",".toList ++ boolText allowSplitK
  | elementwise kind inputs scalarImmediates allowInplace =>
    "ew:".toList ++ natText kind.ctorIdx ++ ",in=".toList ++ idsText inputs '/' ++
      ",im=".toList ++ scalarImmediates.flatMap (fun s => s.text ++ ['/']) ++
      boolText allowInplace
  | transpose input => "tp:".toList ++ natText input
  | cast input targetDtype =>
    "cast:".toList ++ natText input ++ ",".toList ++ natText targetDtype.ctorIdx
  | reduce kind input axis keepdim =>
    "red:".toList ++ natText kind.ctorIdx ++ ",".toList ++ natText input ++ ",".toList ++
      natText axis.ctorIdx ++ ",".toList ++ boolText keepdim
  | softmax input axis stable causal =>
    "sm:".toList ++ natText input ++ ",".toList ++ intText axis ++ ",".toList ++
      boolText stable ++ ",".toList ++ boolText causal
  | store input outputTensor => "st:".toList ++ natText input ++ ",".toList ++ natText outputTensor

def graphNodeText (n : KernelNode) : List Char :=
  ";n:".toList ++ natText n.id ++ ":".toList ++ natText n.kind.ctorIdx ++ ":in=".toList ++
    idsText n.inputs ',' ++ ":out=".toList ++ idsText n.outputs ',' ++ ":sef=".toList ++
    boolText n.sideEffectFree ++ ":attr=".toList ++ natText n.attrs.ctorIdx ++ ":".toList ++
    n.attrs.text

def graphText (g : KernelGraphIR) : List Char :=
  "|gv2|nv=".toList ++ natText g.values.length ++ g.values.flatMap graphValueText ++
    "|iv=".toList ++ idsText g.inputValues ',' ++ "|ov=".toList ++ idsText g.outputValues ',' ++
    "|topo=".toList ++ idsText g.topoOrder ',' ++ "|nn=".toList ++ natText g.nodes.length ++
    g.nodes.flatMap graphNodeText

def opText (op : KernelOp) : List Char := ";op".toList ++ natText op.ctorIdx

/-- `appendKernelStructure`. -/
def kernelStructure : Program → List Char
  | .region r => regionText r
  | .graph g => graphText g
  | .linear ops => "|ops=".toList ++ natText ops.length ++ ops.flatMap opText

/-- The parameters of a quantization that is enabled. -/
def quantizationText (mark : String) (q : QuantizationParams) : List Char :=
  if q.enabled then mark.toList ++ q.scale.text ++ ":".toList ++ intText q.zeroPoint else []

/-- The first two dimensions, where there are two. -/
def shapeText : List ℤ → List Char
  | m :: n :: _ => ":".toList ++ intText m ++ "x".toList ++ intText n
  | _ => []

def tensorText (tensor : RuntimeTensorView) : List Char :=
  "|".toList ++ tensor.symbol.toList ++ ":".toList ++ (dtypeName tensor.dtype).toList ++
    shapeText tensor.shape ++ flagText tensor.isDeviceResident ":dev" ++
    quantizationText ":q=" tensor.quantization

def KernelIR.name (kernel : KernelIR) : String :=
  if kernel.kernelName = "" then "matcore_kernel" else kernel.kernelName

/-- The name of the function that is lowered. -/
def KernelIR.entryPoint (kernel : KernelIR) : String :=
  match kernel.program with
  | .region _ =>
    "fused_" ++ if kernel.kernelName = "" then "matcore_region" else kernel.kernelName
  | .graph _ => "fused_" ++ kernel.name
  | .linear _ => kernel.name

/-- The key of a request. -/
def buildExecutionCacheKey (kernel : KernelIR) (profile : RequestedTargetProfile)
    (tensors : List RuntimeTensorView) (x86CacheTag : Option (List Char)) (graphMode : Bool) :
    List Char :=
  kernel.name.toList ++ "|target=".toList ++ CanonicalTargetString profile ++
    flagText graphMode "|graph_mode" ++
    (match x86CacheTag with
      | some tag => "|".toList ++ tag
      | none => []) ++
    kernelStructure kernel.program ++ quantizationText "|gq=" kernel.globalQuantization ++
    (tensors.take 3).flatMap tensorText

/-- What `getOrCreateExecution` is called for, with the resolved target. -/
structure Request where
  kernel : KernelIR
  profile : RequestedTargetProfile
  tensors : List RuntimeTensorView
  x86Profile : Option X86TargetProfile
  graphMode : Bool

def Request.key (r : Request) : List Char :=
  buildExecutionCacheKey r.kernel r.profile r.tensors (r.x86Profile.map (·.cacheTag)) r.graphMode

/-- The parameters of a quantization that is not enabled are not read. -/
def QuantizationParams.inForce (q : QuantizationParams) : QuantizationParams :=
  if q.enabled then q else {}

/-- The compute capability is read of an NVIDIA target that has both numbers, the chip of an AMD
one. -/
def RequestedTargetProfile.inForce (profile : RequestedTargetProfile) : RequestedTargetProfile :=
  match normalizeTarget profile.kind, profile.nvidiaSmMajor, profile.nvidiaSmMinor with
  | .nvidiaDGPU, some major, some minor => ⟨.nvidiaDGPU, some major, some minor, ""⟩
  | .amdIGPU, _, _ => ⟨.amdIGPU, none, none, profile.amdChip⟩
  | kind, _, _ => ⟨kind, none, none, ""⟩

structure Input where
  name : String
  params : List String
  loops : List LoopRange
  program : Program
  quantization : QuantizationParams
  profile : RequestedTargetProfile
  x86Profile : Option X86TargetProfile
  tensors : List RuntimeTensorView
  graphMode : Bool

def RuntimeTensorView.inForce (tensor : RuntimeTensorView) : RuntimeTensorView :=
  { tensor with quantization := tensor.quantization.inForce }

/-- What lowering reads. -/
def Request.input (r : Request) : Input where
  name := r.kernel.name
  params := r.kernel.params
  loops := r.kernel.loops
  program := r.kernel.program
  quantization := r.kernel.globalQuantization.inForce
  profile := r.profile.inForce
  x86Profile := r.x86Profile
  tensors := r.tensors.map (·.inForce)
  graphMode := r.graphMode

def QuantizationParams.shown (q : QuantizationParams) : QuantizationParams :=
  { q with scale := q.scale.rounded }

def TensorDesc.shownInGraph (v : TensorDesc) : TensorDesc :=
  { v with producer := none, consumers := [] }

def TensorDesc.shownInRegion (v : TensorDesc) : TensorDesc :=
  { v.shownInGraph with strides := [], storageHint := .auto, escape := .noEscape }

def NodeAttrs.shown : NodeAttrs → NodeAttrs
  | elementwise kind inputs scalarImmediates allowInplace =>
    elementwise kind inputs (scalarImmediates.map Double.rounded) allowInplace
  | attrs => attrs

def KernelNode.shown (n : KernelNode) : KernelNode := { n with attrs := n.attrs.shown }

def RegionNode.shown (n : RegionNode) : RegionNode :=
  { n with attrs := { n.attrs with eps := n.attrs.eps.rounded } }

/-- An operation without its operands. -/
def opShown : KernelOp → KernelOp
  | .load .. => .load "" "" []
  | .matmul .. => .matmul "" "" ""
  | .store .. => .store "" "" []
  | .assign .. => .assign "" ""
  | .transpose .. => .transpose "" ""
  | .elementwise .. => .elementwise "" .add "" ""
  | .cast .. => .cast "" "" .float32

def Program.shown : Program → Program
  | region r => region { r with
      values := r.values.map (·.shownInRegion)
      nodes := r.nodes.map (·.shown) }
  | graph g => graph { g with
      values := g.values.map (·.shownInGraph)
      nodes := g.nodes.map (·.shown) }
  | linear ops => linear (ops.map opShown)

/-- The first two dimensions, where there are two. -/
def shapeShown : List ℤ → List ℤ
  | m :: n :: _ => [m, n]
  | _ => []

def RuntimeTensorView.shown (tensor : RuntimeTensorView) : RuntimeTensorView :=
  { tensor with
    shape := shapeShown tensor.shape
    strides := []
    quantization := tensor.quantization.shown }

def Input.shown (input : Input) : Input :=
  { input with
    params := []
    loops := []
    program := input.program.shown
    quantization := input.quantization.shown
    tensors := (input.tensors.take 3).map (·.shown) }

end Matcore.Engine.CacheKey
