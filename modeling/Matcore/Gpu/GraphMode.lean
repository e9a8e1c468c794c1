import Matcore.Gpu.MemoryPool
import Matcore.Lib.StreamOrder

/-!
# Plans and graph replay

`MatcorePlan::execute` of `jit_runner.cpp` over the `mgpu` calls of `gpu_runtime_symbols.cpp`, on
one thread. The host code of a compiled kernel is the list of the calls it makes. It names a
module, a function or a stream by its number among those it has obtained. A call issues events to the
streams of the driver, which run them later: the streams of `GpuStreamPool` and the graph stream are
created with `CU_STREAM_NON_BLOCKING`, so that only waiting orders the work of two streams.
-/

namespace Matcore.Gpu.GraphMode

open StreamOrder (Event)

inductive TensorDType where
  | float32 | float16 | bfloat16 | int8 | int32 | float8E4M3FN
  deriving DecidableEq

def TensorDType.bytes : TensorDType → ℕ
  | float16 | bfloat16 => 2
  | float32 | int32 => 4
  | int8 | float8E4M3FN => 1

structure QuantizationParams where
  enabled : Bool := false
  scale : Float32 := 1.0
  zeroPoint : ℤ := 0

def quantizationMatches (lhs rhs : QuantizationParams) : Bool :=
  if lhs.enabled ≠ rhs.enabled then false
  else if lhs.enabled then lhs.scale == rhs.scale && lhs.zeroPoint == rhs.zeroPoint
  else true

structure RuntimeTensorView where
  data : ℕ
  dtype : TensorDType
  shape : List ℤ
  strides : List ℤ
  isDeviceResident : Bool
  quantization : QuantizationParams := {}

structure FrozenTensorMeta where
  dtype : TensorDType
  shape : List ℤ
  strides : List ℤ
  isDeviceResident : Bool
  isOutput : Bool
  quantization : QuantizationParams := {}

/-- `size_bytes` of `zeroOutputs`, in `std::uint64_t`. -/
def FrozenTensorMeta.sizeBytes (frozen : FrozenTensorMeta) : ℕ :=
  (frozen.shape.foldl (· * ·) (1 : ℤ) * (frozen.dtype.bytes : ℤ) % 2 ^ 64).toNat

/-- The first check of `validateTensors` that a tensor fails. -/
def mismatch (frozen : FrozenTensorMeta) (tensor : RuntimeTensorView) : Option String :=
  if tensor.dtype ≠ frozen.dtype then some "dtype mismatch"
  else if tensor.shape.length ≠ frozen.shape.length then some "rank mismatch"
  else if tensor.shape ≠ frozen.shape then
    some "shape mismatch — plans are shape-locked, create a new plan for different shapes"
  else if tensor.strides ≠ frozen.strides then some "strides mismatch"
  else if tensor.isDeviceResident ≠ frozen.isDeviceResident then
    some ("residency mismatch — " ++
      "cannot mix host/device tensors with a device-resident plan")
  else if ¬ quantizationMatches tensor.quantization frozen.quantization then
    some ("quantization mismatch — plans are quantization-locked, " ++
      "create a new plan for different scale/zero_point")
  else none

/-- The loop of `validateTensors`, from the tensor with this number. -/
def firstMismatch (i : ℕ) : List (FrozenTensorMeta × RuntimeTensorView) → Option String
  | [] => none
  | (frozen, tensor) :: rest =>
    match mismatch frozen tensor with
    | some message => some ("tensor[" ++ toString i ++ "] " ++ message)
    | none => firstMismatch (i + 1) rest

/-- A loaded module: its image, and the level that `mgpuModuleLoadJIT` passed. -/
structure Module where
  image : ℕ
  optLevel : Option ℕ
  deriving DecidableEq

structure Function where
  module : Module
  name : String
  deriving DecidableEq

inductive Stream where
  | null
  | pooled (name : ℕ)
  /-- `graph_stream_` of the plan -/
  | graph
  deriving DecidableEq

inductive CopyKind where
  | dtoD | htoD | dtoH
  deriving DecidableEq

/-- Work on a stream. -/
inductive Work where
  | kernel (function : Function) (grid block : ℕ × ℕ × ℕ) (smem : ℕ) (params : List ℕ)
  | copy (kind : CopyKind) (dst src sizeBytes : ℕ)
  | memset32 (dst value count : ℕ)
  | memset16 (dst value count : ℕ)
  deriving DecidableEq

/-- What a stream or the host does to memory. -/
inductive Operation where
  | work (work : Work)
  | memcpy (dst src sizeBytes : ℕ)
  | memset (dst sizeBytes : ℕ)
  deriving DecidableEq

/-- What is below the runtime: what `cuPointerGetAttribute` says, `GpuMemoryPool::acquire`, whether a
module can be loaded while a stream is captured, and whether `MATCORE_VALIDATE_KERNEL_PARAMS` is
set. -/
structure Driver where
  isDevice : ℕ → Bool
  acquire : MemoryPool.Pool → ℕ → MemoryPool.Pool
  loadsInCapture : Bool
  validateParams : Bool

/-- The effects of operations on cells of memory, and the cells that they read and write. -/
structure Device (Value : Type) where
  effect : Operation → (ℕ → Value) → ℕ → Value
  reads : Operation → Set ℕ
  writes : Operation → Set ℕ
  footprint : ∀ op, Reorder.Footprint (reads op) (writes op) (effect op)

structure CaptureModuleCache where
  module : Option Module := none
  function : Option Function := none
  active : Bool := false
  warmup : Bool := false

/-- `GpuStreamPool`, with the back of `free_streams_` first. -/
structure StreamPool where
  freeStreams : List ℕ := []
  pooledStreams : List ℕ := []
  /-- the streams created so far -/
  created : ℕ := 0

namespace StreamPool

/-- The loop of `acquire` over `free_streams_`. -/
def popFree (pooled : List ℕ) : List ℕ → Option (ℕ × List ℕ)
  | [] => none
  | stream :: free => if stream ∈ pooled then some (stream, free) else popFree pooled free

def acquire (pool : StreamPool) : ℕ × StreamPool :=
  match popFree pool.pooledStreams pool.freeStreams with
  | some (stream, free) =>
    (stream, { pool with freeStreams := free, pooledStreams := pool.pooledStreams.erase stream })
  | none => (pool.created, { pool with freeStreams := [], created := pool.created + 1 })

def kMaxPooledStreams : ℕ := 8

def release (pool : StreamPool) (stream : ℕ) : Except String StreamPool :=
  if stream ∈ pool.pooledStreams then .error "double destroy detected in GPU stream pool"
  else if pool.freeStreams.length < kMaxPooledStreams then
    .ok { pool with
      freeStreams := stream :: pool.freeStreams, pooledStreams := stream :: pool.pooledStreams }
  else .ok pool

end StreamPool

structure State where
  captureStreamOverride : Option Stream := none
  cache : CaptureModuleCache := {}
  streams : StreamPool := {}
  pool : MemoryPool.Pool
  /-- the work that the graph stream has captured, while it is captured -/
  capture : Option (List Work) := none
  /-- history: what was issued since the plan was created -/
  issued : List (Event Stream Operation) := []

/-- The handles that an invocation has obtained. -/
structure Frame where
  modules : List Module := []
  functions : List Function := []
  streams : List Stream := []

namespace State

variable (s : State)

def log (event : Event Stream Operation) : State := { s with issued := s.issued ++ [event] }

/-- Work is issued to a stream, or captured. -/
def issue (stream : Stream) (work : Work) : State :=
  match s.capture with
  | some works =>
    if stream = .graph then { s with capture := some (works ++ [work]) }
    else s.log (.work stream (.work work))
  | none => s.log (.work stream (.work work))

/-- `cuStreamSynchronize`, but for a stream that is captured. -/
def synchronize (stream : Stream) : State :=
  if s.capture.isSome ∧ stream = .graph then s else s.log (.synchronize stream)

/-- `matcore_set_capture_stream_override`. -/
def setCaptureStreamOverride (stream : Option Stream) : State :=
  { s with captureStreamOverride := stream, cache := { s.cache with active := stream.isSome } }

/-- `matcore_set_graph_warmup`. -/
def setGraphWarmup (enable : Bool) : State :=
  { s with
    cache :=
      if enable then { s.cache with warmup := true, module := none, function := none }
      else { s.cache with warmup := false } }

end State

inductive Call where
  | moduleLoad (image : ℕ)
  | moduleLoadJIT (image optLevel : ℕ)
  | moduleUnload (module : ℕ)
  | moduleGetFunction (module : ℕ) (name : String)
  | launchKernel (function : ℕ) (grid block : ℤ × ℤ × ℤ) (smem : ℤ) (stream : ℕ) (params : List ℕ)
  | streamCreate
  | streamDestroy (stream : ℕ)
  | streamSynchronize (stream : ℕ)
  | memAlloc (sizeBytes stream : ℕ) (isHostShared : Bool)
  | memFree (ptr stream : ℕ)
  | memcpy (dst src sizeBytes stream : ℕ)
  | memset32 (dst value count stream : ℕ)
  | memset16 (dst value count stream : ℕ)
  deriving DecidableEq

/-- A handle by its number. The host code uses no handle that it has not obtained. -/
def handle {α : Type} (handles : List α) (i : ℕ) : Except String α :=
  match handles[i]? with
  | some a => .ok a
  | none => .error "undefined handle"

/-- A cast to `unsigned int`. -/
def unsigned (n : ℤ) : ℕ := (n % 2 ^ 32).toNat

def unsigned3 (n : ℤ × ℤ × ℤ) : ℕ × ℕ × ℕ := (unsigned n.1, unsigned n.2.1, unsigned n.2.2)

/-- Three numbers in a message. -/
def listed (n : ℤ × ℤ × ℤ) : String :=
  "(" ++ toString n.1 ++ "," ++ toString n.2.1 ++ "," ++ toString n.2.2 ++ ")"

def positive (n : ℤ × ℤ × ℤ) : Bool := 0 < n.1 && 0 < n.2.1 && 0 < n.2.2

/-- The gate of `mgpuLaunchKernel`. -/
def validateLaunch (grid block : ℤ × ℤ × ℤ) (smem : ℤ) : Except String Unit :=
  if ¬ positive grid then
    .error ("MATCORE_VALIDATE_KERNEL_PARAMS: invalid grid dimensions " ++ listed grid)
  else if ¬ positive block then
    .error ("MATCORE_VALIDATE_KERNEL_PARAMS: invalid block dimensions " ++ listed block)
  else if smem < 0 then
    .error ("MATCORE_VALIDATE_KERNEL_PARAMS: negative shared memory (" ++ toString smem ++ ")")
  else .ok ()

/-- The three driver calls of `mgpuMemcpy`, for pointers that are not both of the host. -/
def copyKind (driver : Driver) (dst src : ℕ) : Option CopyKind :=
  match driver.isDevice dst, driver.isDevice src with
  | true, true => some .dtoD
  | true, false => some .htoD
  | false, true => some .dtoH
  | false, false => none

/-- A call of the host code. A module that was unloaded is not used again, so that
`mgpuModuleUnload` changes nothing that is read later. -/
def Call.run (driver : Driver) (frame : Frame) (s : State) :
    Call → Except String (Frame × State)
  | moduleLoad image =>
    if s.capture.isSome ∧ ¬ driver.loadsInCapture then .error "cuModuleLoadData"
    else .ok ({ frame with modules := frame.modules ++ [⟨image, none⟩] }, s)
  | moduleLoadJIT image optLevel =>
    -- whichever image is asked for, the module loaded last answers
    let cached :=
      if s.captureStreamOverride.isSome ∧ s.cache.active then s.cache.module else none
    match cached with
    | some module => .ok ({ frame with modules := frame.modules ++ [module] }, s)
    | none =>
      if s.capture.isSome ∧ ¬ driver.loadsInCapture then .error "cuModuleLoadDataEx"
      else
        let module : Module := ⟨image, some optLevel⟩
        .ok ({ frame with modules := frame.modules ++ [module] },
          { s with cache := { s.cache with module := some module } })
  | moduleUnload module => do
    let _ ← handle frame.modules module
    .ok (frame, s)
  | moduleGetFunction module name => do
    let module ← handle frame.modules module
    let cached :=
      if s.captureStreamOverride.isSome ∧ s.cache.active then s.cache.function else none
    match cached with
    | some function => .ok ({ frame with functions := frame.functions ++ [function] }, s)
    | none =>
      let function : Function := ⟨module, name⟩
      .ok ({ frame with functions := frame.functions ++ [function] },
        { s with cache := { s.cache with function := some function } })
  | launchKernel function grid block smem stream params => do
    let function ← handle frame.functions function
    let stream ← handle frame.streams stream
    if driver.validateParams then validateLaunch grid block smem
    .ok (frame, s.issue stream
      (.kernel function (unsigned3 grid) (unsigned3 block) (unsigned smem) params))
  | streamCreate =>
    match s.captureStreamOverride with
    | some stream => .ok ({ frame with streams := frame.streams ++ [stream] }, s)
    | none =>
      let (stream, streams) := s.streams.acquire
      .ok ({ frame with streams := frame.streams ++ [.pooled stream] }, { s with streams })
  | streamDestroy stream => do
    let stream ← handle frame.streams stream
    if s.captureStreamOverride = some stream then .ok (frame, s)
    else
      match stream with
      | .pooled name => do
        let streams ← s.streams.release name
        .ok (frame, { s with streams })
      | _ => .ok (frame, s)
  | streamSynchronize stream => do
    let stream ← handle frame.streams stream
    .ok (frame, s.synchronize stream)
  | memAlloc sizeBytes stream isHostShared => do
    let _ ← handle frame.streams stream
    if isHostShared then
      .error "managed CUDA allocations are not implemented in MatCore's runtime"
    else if sizeBytes = 0 then .ok (frame, s)
    else if s.captureStreamOverride.isSome then
      .error ("mgpuMemAlloc called during CUDA graph capture. " ++
        "graph_mode requires all tensors to be device-resident (no staging).")
    else .ok (frame, { s with pool := driver.acquire s.pool sizeBytes })
  | memFree ptr stream => do
    let _ ← handle frame.streams stream
    if s.captureStreamOverride.isSome then .ok (frame, s)
    else if ptr = 0 then .ok (frame, s)
    else
      let (pool, _, _) ← s.pool.releaseLocked ptr none
      .ok (frame, { s with pool })
  | memcpy dst src sizeBytes stream => do
    let stream ← handle frame.streams stream
    if sizeBytes = 0 ∨ dst = src then .ok (frame, s)
    else
      match copyKind driver dst src with
      | some kind => .ok (frame, s.issue stream (.copy kind dst src sizeBytes))
      | none => .ok (frame, s.log (.host (.memcpy dst src sizeBytes)))
  | memset32 dst value count stream => do
    let stream ← handle frame.streams stream
    .ok (frame, s.issue stream (.memset32 dst value count))
  | memset16 dst value count stream => do
    let stream ← handle frame.streams stream
    .ok (frame, s.issue stream (.memset16 dst value count))

/-- The calls of an invocation, from one of them on. -/
def runFrom (driver : Driver) (frame : Frame) (s : State) :
    List Call → Except String (Frame × State)
  | [] => .ok (frame, s)
  | call :: program => do
    let (frame, s) ← call.run driver frame s
    runFrom driver frame s program

/-- `invokeCompiledKernel`. -/
def invokeCompiledKernel (driver : Driver) (program : List Call) (s : State) :
    Except String State := do
  let (_, s) ← runFrom driver {} s program
  .ok s

/-- `matcore_device_zero_raw`, and `matcore_device_zero_raw_on_stream` on the graph stream. -/
def deviceZeroRaw (name : String) (ptr sizeBytes : ℕ) (stream : Stream)
    (s : State) : Except String State :=
  if ptr = 0 ∨ sizeBytes = 0 then .ok s
  else if sizeBytes % 4 = 0 then .ok (s.issue stream (.memset32 ptr 0 (sizeBytes / 4)))
  else if sizeBytes % 2 = 0 then .ok (s.issue stream (.memset16 ptr 0 (sizeBytes / 2)))
  else .error (name ++ ": buffer size not 2-aligned (" ++ toString sizeBytes ++ " bytes)")

/-- One turn of the loop of `zeroOutputs` and of `zeroOutputsOnStream`. -/
def zeroTensor (name : String) (stream : Stream) (frozen : FrozenTensorMeta)
    (tensor : RuntimeTensorView) (s : State) : Except String State :=
  if frozen.isOutput ∧ tensor.data ≠ 0 then
    if tensor.isDeviceResident then
      deviceZeroRaw name tensor.data frozen.sizeBytes stream s
    else .ok (s.log (.host (.memset tensor.data frozen.sizeBytes)))
  else .ok s

def zeroTensors (name : String) (stream : Stream) :
    List (FrozenTensorMeta × RuntimeTensorView) → State → Except String State
  | [], s => .ok s
  | (frozen, tensor) :: rest, s => do
    let s ← zeroTensor name stream frozen tensor s
    zeroTensors name stream rest s

/-- A plan. The program is the host code of the compiled kernel. -/
structure Plan where
  frozenMeta : List FrozenTensorMeta
  needsOutputZeroing : Bool
  program : List Call
  graphMode : Bool

/-- `graph_exec_` and `captured_ptrs_`, once `graph_captured_` is set. -/
structure Captured where
  graphExec : List Work
  capturedPtrs : List ℕ

namespace Plan

variable (plan : Plan) (driver : Driver)

def validateTensors (tensors : List RuntimeTensorView) : Option String :=
  if tensors.length ≠ plan.frozenMeta.length then
    some ("expected " ++ toString plan.frozenMeta.length ++ " tensors, got " ++
      toString tensors.length)
  else firstMismatch 0 (plan.frozenMeta.zip tensors)

/-- The loop over `captured_ptrs_`, from the tensor with this number. -/
def firstMoved (i : ℕ) : List (ℕ × RuntimeTensorView) → Option String
  | [] => none
  | (ptr, tensor) :: rest =>
    if tensor.data ≠ ptr then
      some ("execute_plan: tensor[" ++ toString i ++
        "] data pointer changed since graph capture. " ++
        "CUDA graphs bake addresses — use the same DeviceTensors, " ++
        "or create a new plan to re-capture.")
    else firstMoved (i + 1) rest

def zeroOutputs (tensors : List RuntimeTensorView) (s : State) : Except String State :=
  if plan.needsOutputZeroing then
    zeroTensors "matcore_device_zero_raw" .null (plan.frozenMeta.zip tensors) s
  else .ok s

def zeroOutputsOnStream (tensors : List RuntimeTensorView) (s : State) : Except String State :=
  if plan.needsOutputZeroing then
    zeroTensors "matcore_device_zero_raw_on_stream" .graph (plan.frozenMeta.zip tensors) s
  else .ok s

/-- The last part of `execute`, and its warm-up. -/
def invoke (tensors : List RuntimeTensorView) (s : State) : Except String State := do
  let s ← plan.zeroOutputs tensors s
  invokeCompiledKernel driver plan.program s

/-- The capture of `execute`: the state behind it and what the graph stream captured. -/
def capture (tensors : List RuntimeTensorView) (s : State) :
    Except String (State × List Work) := do
  let s := s.setCaptureStreamOverride (some .graph)
  let s ← plan.zeroOutputsOnStream tensors { s with capture := some [] }
  let s ← invokeCompiledKernel driver plan.program s
  let s := s.setCaptureStreamOverride none
  .ok ({ s with capture := none }, s.capture.getD [])

/-- `MatcorePlan::execute`. -/
def execute (tensors : List RuntimeTensorView) (state : Option Captured × State) :
    Except String (Option Captured × State) := do
  let (captured, s) := state
  if let some message := plan.validateTensors tensors then
    .error ("execute_plan: " ++ message)
  else if plan.graphMode then
    match captured with
    | some graph =>
      if let some message := firstMoved 0 (graph.capturedPtrs.zip tensors) then .error message
      else
        let s := graph.graphExec.foldl (fun s work => s.issue .graph work) s
        .ok (captured, s.synchronize .graph)
    | none => do
      let s ← plan.invoke driver tensors (s.setGraphWarmup true)
      let (s, works) ← plan.capture driver tensors (s.setGraphWarmup false)
      .ok (some ⟨works, tensors.map (·.data)⟩, s.synchronize .graph)
  else do
    let s ← plan.invoke driver tensors s
    .ok (none, s)

/-- So many calls of `execute` with the same tensors, on a plan that was just created. -/
def executes (tensors : List RuntimeTensorView) (s : State) :
    ℕ → Except String (Option Captured × State)
  | 0 => .ok (none, s)
  | n + 1 => do
    let state ← executes tensors s n
    plan.execute driver tensors state

end Plan

end Matcore.Gpu.GraphMode
