import Matcore.Gpu.GraphMode

/-!
# Output zeroing

The launches of `jit_runner.cpp` that are not of graph mode, `compileAndRun` and
`MatcorePlan::execute`: what they issue to the streams of the driver, and what the host does itself.
The streams of `GpuStreamPool` are created with `CU_STREAM_NON_BLOCKING`.
-/

namespace Matcore.Gpu.OutputZeroing

open GraphMode
open StreamOrder (Event)

/-- A write of zeros to an output, or something that the host code does. -/
inductive Op where
  | zero (ptr width count : ℕ)
  | work (work : Work)
  | memcpy (dst src sizeBytes : ℕ)
  deriving DecidableEq

abbrev Events := List (Event Stream Op)

variable (driver : Driver)

/-- What a call of the host code issues, if it returns. -/
def callEvents (frame : Frame) (s : State) : Call → Events
  | .launchKernel function grid block smem stream params =>
    match frame.functions[function]?, frame.streams[stream]? with
    | some function, some stream =>
      [.work stream (.work (.kernel function (unsigned3 grid) (unsigned3 block) (unsigned smem)
        params))]
    | _, _ => []
  | .streamSynchronize stream =>
    match frame.streams[stream]? with
    | some stream => if s.capture.isSome ∧ stream = .graph then [] else [.synchronize stream]
    | none => []
  | .memcpy dst src sizeBytes stream =>
    match frame.streams[stream]? with
    | some stream =>
      if sizeBytes = 0 ∨ dst = src then []
      else match copyKind driver dst src with
        | some kind => [.work stream (.work (.copy kind dst src sizeBytes))]
        | none => [.host (.memcpy dst src sizeBytes)]
    | none => []
  | .memset32 dst value count stream =>
    match frame.streams[stream]? with
    | some stream => [.work stream (.work (.memset32 dst value count))]
    | none => []
  | .memset16 dst value count stream =>
    match frame.streams[stream]? with
    | some stream => [.work stream (.work (.memset16 dst value count))]
    | none => []
  | _ => []

/-- `invokeCompiledKernel`, up to a call that throws. -/
def programEvents (frame : Frame) (s : State) : List Call → Events
  | [] => []
  | call :: program =>
    match call.run driver frame s with
    | .error _ => []
    | .ok (frame', s') => callEvents driver frame s call ++ programEvents frame' s' program

/-- An output that is zeroed. -/
structure Output where
  data : ℕ
  sizeBytes : ℕ
  isDeviceResident : Bool

/-- `matcore_device_zero_raw`, which issues to the null stream. -/
def deviceZeroRaw (ptr sizeBytes : ℕ) : Except String Events :=
  if ptr = 0 ∨ sizeBytes = 0 then .ok []
  else if sizeBytes % 4 = 0 then .ok [.work .null (.zero ptr 4 (sizeBytes / 4))]
  else if sizeBytes % 2 = 0 then .ok [.work .null (.zero ptr 2 (sizeBytes / 2))]
  else .error ("matcore_device_zero_raw: buffer size not 2-aligned (" ++ toString sizeBytes ++
    " bytes)")

def zeroTensor (out : Output) : Except String Events :=
  if out.data = 0 then .ok []
  else if out.isDeviceResident then deviceZeroRaw out.data out.sizeBytes
  else .ok [.host (.zero out.data 1 out.sizeBytes)]

/-- The loop over the outputs: what it issues, and the text if it throws. -/
def zeroOutputs : List Output → Events × Option String
  | [] => ([], none)
  | out :: outputs =>
    match zeroTensor out with
    | .error message => ([], some message)
    | .ok events =>
      let rest := zeroOutputs outputs
      (events ++ rest.1, rest.2)

structure LoweredModule where
  outputTensorIndices : List ℕ
  needsOutputZeroing : Bool
  program : List Call

/-- `byte_size` of `zeroOutputTensors`, in `std::size_t`. -/
def byteSize (tensor : RuntimeTensorView) : ℕ :=
  (tensor.shape.foldl (· * ·) (1 : ℤ) * (tensor.dtype.bytes : ℤ) % 2 ^ 64).toNat

def ofTensor (tensor : RuntimeTensorView) : Output :=
  ⟨tensor.data, byteSize tensor, tensor.isDeviceResident⟩

/-- The outputs of `zeroOutputTensors`. -/
def LoweredModule.outputs (lowered : LoweredModule) (tensors : List RuntimeTensorView) :
    List Output :=
  if lowered.outputTensorIndices ≠ [] then
    (lowered.outputTensorIndices.filterMap (tensors[·]?)).map ofTensor
  else tensors.getLast?.toList.map ofTensor

/-- The outputs of `MatcorePlan::zeroOutputs`. -/
def planOutputs (plan : Plan) (tensors : List RuntimeTensorView) : List Output :=
  (plan.frozenMeta.zip tensors).filterMap fun (frozen, tensor) =>
    if frozen.isOutput then some ⟨tensor.data, frozen.sizeBytes, tensor.isDeviceResident⟩ else none

/-- A launch without graph mode. -/
inductive Launch where
  | compileAndRun (lowered : LoweredModule) (tensors : List RuntimeTensorView)
  | execute (plan : Plan) (ordinary : plan.graphMode = false) (tensors : List RuntimeTensorView)

namespace Launch

/-- The outputs that the launch zeroes. -/
def outputs : Launch → List Output
  | compileAndRun lowered tensors =>
    if lowered.needsOutputZeroing then lowered.outputs tensors else []
  | execute plan _ tensors =>
    if plan.validateTensors tensors = none ∧ plan.needsOutputZeroing then planOutputs plan tensors
    else []

def program : Launch → List Call
  | compileAndRun lowered _ => lowered.program
  | execute plan _ tensors => if plan.validateTensors tensors = none then plan.program else []

/-- All that a launch issues. -/
def events (launch : Launch) (s : State) : Events :=
  match zeroOutputs launch.outputs with
  | (events, some _) => events
  | (events, none) => events ++ programEvents driver {} s launch.program

end Launch

/-- The state of a thread. A null pointer in `g_capture_stream_override` is none. -/
structure Thread where
  state : State
  override : state.captureStreamOverride ≠ some .null

/-- In every order in which the streams may run, an output is zero before a kernel accesses it. -/
def Ordered (accesses : Work → ℕ → Prop) (events : Events) : Prop :=
  ∀ time, StreamOrder.Schedule events time → ∀ i j ptr width count stream function grid block smem
    params, (events[i]?.bind Event.op = some (.zero ptr width count)) →
      events[j]? = some (.work stream (.work (.kernel function grid block smem params))) →
      accesses (.kernel function grid block smem params) ptr → time i < time j

end Matcore.Gpu.OutputZeroing
