import Matcore.Engine.ExecutionCache

/-!
# Executions from the disk cache

What a compiled execution says of its tensors, what of it goes through the metadata file of the disk
cache, and how it then is run, by `compileAndRun` and by a plan. A tensor is its view with its
address, zero for none.
-/

namespace Matcore.Engine.DiskCache

open CacheKey

/-- What `LoweredModule` says of the tensors, with its defaults. -/
structure LoweredModule where
  entryPoint : String
  lhsTensorIndex : ℕ := 0
  rhsTensorIndex : ℕ := 1
  outTensorIndex : ℕ := 2
  tensorCount : ℕ := 3
  needsOutputZeroing : Bool := true
  outputTensorIndices : List ℕ := []

/-- The output is the last tensor. -/
def fusedModule (entryPoint : String) (tensorCount : ℕ) (needsOutputZeroing : Bool)
    (emptyOutIndex : ℕ) : LoweredModule where
  entryPoint := entryPoint
  outTensorIndex := if tensorCount = 0 then emptyOutIndex else tensorCount - 1
  tensorCount := tensorCount
  needsOutputZeroing := needsOutputZeroing
  outputTensorIndices := if tensorCount = 0 then [] else [tensorCount - 1]

def linearModule (kernel : CacheKey.KernelIR) (tensorCount : ℕ) : Option LoweredModule :=
  let linear : Engine.KernelIR := { params := kernel.params, ops := kernel.ops }
  if isElementwiseKernel linear then
    match firstKind linear with
    | none => none
    | some kind =>
      let expected := if isUnaryOp kind then 2 else 3
      if tensorCount < expected then none
      else some { entryPoint := kernel.name, tensorCount := expected, needsOutputZeroing := false,
                  outputTensorIndices := [expected - 1] }
  else if kernel.params.length < 3 || tensorCount < 3 then none
  else some { entryPoint := kernel.name, outputTensorIndices := [2] }

/-- `MlirEngine::BuildAndLower`, where its other checks pass. `hasMatmul` tells of the fusion plan
that is accepted for a graph whether it has a product, if there is one. -/
def buildAndLower
    (hasMatmul : CacheKey.KernelGraphIR → CacheKey.RequestedTargetProfile → Option Bool)
    (r : Request) : Option LoweredModule :=
  match r.kernel.program with
  | .region _ => some (fusedModule r.kernel.entryPoint r.tensors.length false 0)
  | .graph g =>
    (hasMatmul g r.profile).map fun matmul =>
      fusedModule r.kernel.entryPoint r.tensors.length matmul 2
  | .linear _ => linearModule r.kernel r.tensors.length

inductive Value where
  | string (value : String)
  | integer (value : ℤ)
  | boolean (value : Bool)

abbrev Metadata := List (String × Value)

def getInteger (m : Metadata) (name : String) : Option ℤ :=
  match m.lookup name with
  | some (.integer value) => some value
  | _ => none

def getBoolean (m : Metadata) (name : String) : Option Bool :=
  match m.lookup name with
  | some (.boolean value) => some value
  | _ => none

/-- What `persistExecutionToDiskCache` writes. -/
def metadata (cacheVersion target routeDescription : String) (lowered : LoweredModule) : Metadata :=
  [("matcore_cache_version", .string cacheVersion), ("target", .string target),
    ("entry_point", .string lowered.entryPoint), ("route_description", .string routeDescription),
    ("tensor_count", .integer lowered.tensorCount),
    ("needs_output_zeroing", .boolean lowered.needsOutputZeroing)]

/-- What `tryLoadDiskCachedExecution` makes of it. -/
def restore (r : Request) (m : Metadata) : LoweredModule :=
  let lowered : LoweredModule := { entryPoint := r.kernel.name }
  { lowered with
    tensorCount := ((getInteger m "tensor_count").map Int.toNat).getD lowered.tensorCount
    needsOutputZeroing := (getBoolean m "needs_output_zeroing").getD lowered.needsOutputZeroing }

structure Tensor where
  view : CacheKey.RuntimeTensorView
  data : ℕ

abbrev Memory := ℕ → UInt8

def dtypeElementBytes : TensorDType → ℕ
  | .float32 | .int32 => 4
  | .float16 | .bfloat16 => 2
  | .int8 | .float8E4M3FN => 1

def Tensor.byteSize (t : Tensor) : ℕ :=
  (t.view.shape.map Int.toNat).prod * dtypeElementBytes t.view.dtype

def zeroTensor (memory : Memory) (t : Tensor) : Memory :=
  if t.data = 0 then memory
  else fun a => if t.data ≤ a ∧ a < t.data + t.byteSize then 0 else memory a

/-- The tensors that `zeroOutputTensors` looks at, by their places. -/
def outputPlaces (lowered : LoweredModule) (tensorCount : ℕ) : List ℕ :=
  if tensorCount = 0 then []
  else if lowered.outputTensorIndices ≠ [] then
    lowered.outputTensorIndices.filter (· < tensorCount)
  else [tensorCount - 1]

/-- The tensors that a plan marks as outputs. -/
def planOutputs (lowered : LoweredModule) (tensorCount : ℕ) : List ℕ :=
  (List.range tensorCount).filter fun i =>
    if lowered.outputTensorIndices ≠ [] then lowered.outputTensorIndices.contains i
    else i = lowered.outTensorIndex

/-- The tensors at these places, where they have an address. -/
def withData (tensors : List Tensor) (places : List ℕ) : List ℕ :=
  places.filter fun i => (tensors[i]?).any fun t => t.data ≠ 0

def zeroAt (tensors : List Tensor) (memory : Memory) (places : List ℕ) : Memory :=
  places.foldl (fun memory i => (tensors[i]?).elim memory (zeroTensor memory)) memory

/-- The places that are zeroed before a run. -/
def zeroedByRun (lowered : LoweredModule) (tensors : List Tensor) : List ℕ :=
  if lowered.needsOutputZeroing then withData tensors (outputPlaces lowered tensors.length) else []

def zeroedByPlan (lowered : LoweredModule) (tensors : List Tensor) : List ℕ :=
  if lowered.needsOutputZeroing then withData tensors (planOutputs lowered tensors.length) else []

inductive ExecutionBackend where
  | engine
  | sharedLibrary
  deriving DecidableEq

/-- The tensors that `invokeCompiledKernel` hands to the code. -/
def invocation (backend : ExecutionBackend) (lowered : LoweredModule) (tensors : List Tensor) :
    Option (List Tensor) :=
  if lowered.tensorCount = 2 then
    if tensors.length < 2 then none else some (tensors.take 2)
  else if 4 ≤ lowered.tensorCount then
    if tensors.length < lowered.tensorCount then none
    else if backend = .sharedLibrary ∧ 16 < lowered.tensorCount then none
    else some (tensors.take lowered.tensorCount)
  else if lowered.tensorCount ≠ 3 then none
  else if tensors.length < 3 then none
  else
    [lowered.lhsTensorIndex, lowered.rhsTensorIndex, lowered.outTensorIndex].mapM (tensors[·]?)

/-- Machine code, which may fail on its arguments. -/
abbrev Code := List Tensor → Memory → Option Memory

def invokeCompiledKernel (backend : ExecutionBackend) (lowered : LoweredModule) (code : Code)
    (tensors : List Tensor) (memory : Memory) : Option Memory :=
  (invocation backend lowered tensors).bind fun arguments => code arguments memory

/-- `compileAndRun`, from the execution on. -/
def compileAndRun (backend : ExecutionBackend) (lowered : LoweredModule) (code : Code)
    (tensors : List Tensor) (memory : Memory) : Option Memory :=
  invokeCompiledKernel backend lowered code tensors
    (zeroAt tensors memory (zeroedByRun lowered tensors))

/-- `MatcorePlan::execute` of a plan without a graph. -/
def executePlan (backend : ExecutionBackend) (lowered : LoweredModule) (code : Code)
    (tensors : List Tensor) (memory : Memory) : Option Memory :=
  invokeCompiledKernel backend lowered code tensors
    (zeroAt tensors memory (zeroedByPlan lowered tensors))

end Matcore.Engine.DiskCache
