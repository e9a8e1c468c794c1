import Matcore.Gpu.Candidate

/-!
# The CUDA candidate

`closed_cuda_candidate_v1.cpp`. A frame owns a private context, two modules, five device buffers
and the host staging of one invocation. As on the ROCm side, the worker thread is joined before
an invocation returns.
-/

namespace Matcore.Gpu.Cuda

open ClosedHost (Code)
open Async

inductive Module where
  | gemm
  | fill
  deriving DecidableEq

/-- The driver resources of a frame. -/
inductive Slot where
  | memory (index : Fin 5)
  | module (module : Module)
  | context
  deriving DecidableEq

inductive Image where
  | fill | gemm | fusedPair

inductive Attribute where
  | computeCapabilityMajor
  | computeCapabilityMinor
  | maxGridDimX
  | maxGridDimY

/-- `ctxGetCurrent` stands for the two uses of `cuCtxGetCurrent`: it saves the context of the
worker before the private one is created, and it checks at the end that it is restored. -/
inductive CudaCall where
  | init
  | deviceGetCount
  | deviceGet (index : ℕ)
  | deviceGetAttribute (kind : Attribute) (device : ℤ)
  | ctxGetCurrent (restored : Bool)
  | ctxCreate (device : ℤ)
  | moduleLoadData (module : Module) (image : Image)
  | moduleGetFunction (module : Module)
  | memAlloc (index : Fin 5) (bytes : ℕ)
  | memcpyHtoD (index : Fin 5) (bytes : ℕ)
  | memcpyDtoH (index : Fin 5) (bytes : ℕ)
  | launchKernel (module : Module) (gridX gridY : ℕ)
  | ctxSynchronize
  | memFree (index : Fin 5)
  | moduleUnload (module : Module)
  | ctxPopCurrent
  | ctxDestroy

inductive CudaStatus where
  | success
  | outOfMemory
  | error
  deriving DecidableEq

/-- The return code of a call and its out-parameters. A successful creation leaves `created`;
`left` is what any other call leaves, where the null pointer is possible. -/
structure CudaReply where
  status : CudaStatus
  value : ℤ := 0
  created : ℕ := 0
  left : Option ℕ := none

def CudaReply.success (reply : CudaReply) : Bool := reply.status = .success

def CudaReply.handle (reply : CudaReply) : Option ℕ :=
  if reply.success then some reply.created else reply.left

/-- `Resources`. -/
structure Frame where
  handle : Slot → Option ℕ := fun _ => none
  previous : Option ℕ := none

def Frame.set (frame : Frame) (slot : Slot) (handle : Option ℕ) : Frame :=
  { frame with handle := Function.update frame.handle slot handle }

def CudaCall.role : CudaCall → Role Slot
  | .memcpyHtoD .. | .memcpyDtoH .. | .launchKernel .. => .queue
  | .ctxSynchronize => .synchronise
  | .memFree index => .release (.memory index)
  | .moduleUnload module => .release (.module module)
  | .ctxDestroy => .release .context
  | .ctxPopCurrent | .ctxGetCurrent true => .cleanup
  | _ => .plain

/-- The two calls that restore the context also check which one they return. -/
def CudaCall.accepts (frame : Frame) (reply : CudaReply) : CudaCall → Bool
  | .ctxPopCurrent => reply.success && reply.left == frame.handle .context
  | .ctxGetCurrent true => reply.success && reply.left == frame.previous
  | _ => reply.success

def CudaCall.update (reply : CudaReply) (frame : Frame) : CudaCall → Frame
  | .ctxGetCurrent false => { frame with previous := reply.left }
  | .ctxCreate _ => frame.set .context reply.handle
  | .moduleLoadData module _ => frame.set (.module module) reply.handle
  | .memAlloc index _ => frame.set (.memory index) reply.handle
  | _ => frame

def adapter : Adapter CudaCall Slot Frame CudaReply where
  role := CudaCall.role
  accepts c frame reply := c.accepts frame reply
  update c reply frame := c.update reply frame

abbrev M := StateM (World CudaCall Frame)

/-- What the build decides about the images. -/
structure Build where
  fillImageSize : ℕ
  gemmImageSize : ℕ
  fusedPair : Bool
  fusedPairImageSize : ℕ

section Functions

variable (driver : ℕ → CudaReply)

/-- The loop of `discover`. -/
def discoverFrom : List ℕ → M (Except Code ℤ)
  | [] => pure (.error .candidateIncompatible)
  | index :: rest => do
    let (found, device) ← call adapter driver (.deviceGet index)
    if !found then return .error .candidateUnavailable
    let (okMajor, major) ←
      call adapter driver (.deviceGetAttribute .computeCapabilityMajor device.value)
    if !okMajor then return .error .candidateUnavailable
    let (okMinor, minor) ←
      call adapter driver (.deviceGetAttribute .computeCapabilityMinor device.value)
    if !okMinor then return .error .candidateUnavailable
    if major.value = 8 ∧ minor.value = 9 then return .ok device.value
    else discoverFrom rest

def discover : M (Except Code ℤ) := do
  if (← get).poisoned then return .error .candidateUnavailable
  if !(← perform adapter driver .init) then return .error .candidateUnavailable
  let (counted, count) ← call adapter driver .deviceGetCount
  if !counted || count.value ≤ 0 then return .error .candidateUnavailable
  discoverFrom driver (List.range count.value.toNat)

def bytes (rows columns : ℕ) : Option ℕ :=
  let limit := (2 ^ 63 - 1) / 4
  if rows > limit ∨ columns > limit ∨ rows ≠ 0 ∧ columns > limit / rows then none
  else some (rows * columns * 4)

def range (pointer size : ℕ) : Option (ℕ × ℕ) := hostRange pointer size

def freeCall : Slot → CudaCall
  | .memory index => .memFree index
  | .module module => .moduleUnload module
  | .context => .ctxDestroy

/-- The slots that `finish` frees before it restores the context. -/
def releaseOrder : List Slot :=
  [.memory 0, .memory 1, .memory 2, .memory 3, .memory 4, .module .gemm, .module .fill]

def held (frame : Frame) (slot : Slot) : Bool := (frame.handle slot).isSome

/-- The first part of `finish`: nothing is freed unless the context is known to be idle. -/
def freeResources (quiescent : Bool) : M Bool :=
  if quiescent then releaseAll adapter driver held freeCall releaseOrder true
  else do
    poison
    return false

/-- The last part of `finish`. -/
def destroyContext (quiescent okay : Bool) : M Bool :=
  if quiescent then releaseAll adapter driver held freeCall [.context] okay
  else return false

/-- `Resources::finish`. -/
def finish : M Bool := do
  if (← get).frame.handle .context = none then return true
  let quiescent ← perform adapter driver .ctxSynchronize
  let freed ← freeResources driver quiescent
  let popped ← perform adapter driver .ctxPopCurrent
  let restored ← perform adapter driver (.ctxGetCurrent true)
  let okay ← destroyContext driver quiescent (freed && popped && restored)
  if okay then touch fun frame => frame.set .context none
  else poison
  return okay

/-- The arguments of the calls in which the two routes differ. -/
structure Recipe where
  images : List (Module × Image)
  functions : List Module
  allocate : List (Fin 5 × ℕ)
  upload : List (Fin 5 × ℕ)
  launch : List (Module × ℕ × ℕ)
  download : Fin 5 × ℕ

/-- The allocations, an empty buffer with the size of one element. -/
def allocate : List (Fin 5 × ℕ) → M Code
  | [] => return .ok
  | (index, size) :: rest => do
    let (succeeded, reply) ←
      call adapter driver (.memAlloc index (if size ≠ 0 then size else 4))
    if succeeded then allocate rest
    else if reply.status = .outOfMemory then return .allocationFailure
    else return .candidateFailure

/-- The lambda `run` of both routes. -/
def run (recipe : Recipe) : M Code := do
  let images := recipe.images.map fun image => .moduleLoadData image.1 image.2
  if !(← attempt adapter driver images) then return .candidateFailure
  let functions := recipe.functions.map .moduleGetFunction
  if !(← attempt adapter driver functions) then return .candidateFailure
  let allocated ← allocate driver recipe.allocate
  if allocated ≠ .ok then return allocated
  -- an empty buffer is not uploaded
  let uploads := (recipe.upload.filter (·.2 ≠ 0)).map fun buffer => .memcpyHtoD buffer.1 buffer.2
  if !(← attempt adapter driver uploads) then return .candidateFailure
  let launches := recipe.launch.map fun kernel => .launchKernel kernel.1 kernel.2.1 kernel.2.2
  if !(← attempt adapter driver launches) then return .candidateFailure
  if !(← perform adapter driver .ctxSynchronize) then return .candidateFailure
  if !(← perform adapter driver (.memcpyDtoH recipe.download.1 recipe.download.2)) then
    return .candidateFailure
  return .ok

/-- `execute` and `executePair` from `cuCtxGetCurrent` on. -/
def stage (recipe : Recipe) (device : ℤ) : M Code := do
  if !(← perform adapter driver (.ctxGetCurrent false)) then
    destroy
    return .candidateFailure
  if !(← perform adapter driver (.ctxCreate device)) then
    destroy
    return .candidateFailure
  let status ← run driver recipe
  if !(← finish driver) then
    quarantine
    return .candidateFailure
  if status = .ok then record .write
  destroy
  return status

/-- The allocations on the host before the first driver call of a frame. -/
def frameOf (env : Environment) (recipe : Recipe) (device : ℤ) : M Code :=
  match env.staging with
  | .noFrame => return .allocationFailure
  | .noBuffers => do
    openFrame {}
    destroy
    return .allocationFailure
  | .allocated => do
    openFrame {}
    stage driver recipe device

def gemmRecipe (sizeA sizeB sizeC m n : ℕ) : Recipe where
  images := [(.fill, .fill), (.gemm, .gemm)]
  functions := [.fill, .gemm]
  allocate := [(0, sizeA), (1, sizeB), (2, sizeC)]
  upload := [(0, sizeA), (1, sizeB)]
  launch := [(.fill, m, n), (.gemm, m, n)]
  download := (2, sizeC)

/-- The guards of `execute` on its arguments, with the byte counts. -/
def admitGemm (a b c : CandidateView) : Except Code (ℕ × ℕ × ℕ) :=
  match bytes a.rows a.columns, bytes b.rows b.columns, bytes c.rows c.columns with
  | some sizeA, some sizeB, some sizeC =>
    if a.columns ≠ b.rows ∨ c.rows ≠ a.rows ∨ c.columns ≠ b.columns then .error .shapeMismatch
    else if sizeA ≠ 0 ∧ a.data = 0 ∨ sizeB ≠ 0 ∧ b.data = 0 ∨ sizeC ≠ 0 ∧ c.data = 0 then
      .error .invalidView
    else if !ClosedHost.closedGpuShapeCompatible a.rows b.columns a.columns then
      .error .candidateIncompatible
    else
      match range a.data sizeA, range b.data sizeB, range c.data sizeC with
      | some ra, some rb, some rc =>
        if overlap sizeC sizeA rc ra || overlap sizeC sizeB rc rb then .error .invalidView
        else .ok (sizeA, sizeB, sizeC)
      | _, _, _ => .error .invalidView
  | _, _, _ => .error .extentOverflow

def execute (build : Build) (env : Environment) (a b c : CandidateView) (device : ℤ) :
    M Code := do
  match admitGemm a b c with
  | .error code => return code
  | .ok (sizeA, sizeB, sizeC) =>
    let (okX, maxX) ← call adapter driver (.deviceGetAttribute .maxGridDimX device)
    if !okX then return .candidateUnavailable
    let (okY, maxY) ← call adapter driver (.deviceGetAttribute .maxGridDimY device)
    if !okY then return .candidateUnavailable
    if maxX.value ≤ 0 ∨ maxY.value ≤ 0 ∨ (c.rows : ℤ) > maxX.value ∨ (c.columns : ℤ) > maxY.value ∨
        c.rows > 2 ^ 31 - 1 ∨ c.columns > 2 ^ 31 - 1 then
      return .candidateIncompatible
    if sizeC = 0 then return .ok
    if build.fillImageSize < 64 ∨ build.gemmImageSize < 64 then return .candidateUnavailable
    frameOf driver env (gemmRecipe sizeA sizeB sizeC c.rows c.columns) device

def fusedPairRecipe (sizeA sizeB sizeD sizeE sizePanel : ℕ) : Recipe where
  images := [(.gemm, .fusedPair)]
  functions := [.gemm]
  allocate := [(0, sizeA), (1, sizeB), (2, sizeD), (3, sizeE), (4, sizePanel)]
  upload := [(0, sizeA), (1, sizeB), (2, sizeD)]
  launch := [(.gemm, 1, 1)]
  download := (3, sizeE)

def cudaFusedPairImageAvailable (build : Build) : Code :=
  if build.fusedPair && 64 ≤ build.fusedPairImageSize then .ok else .candidateUnavailable

/-- The guards of `executePair` on its arguments, with the byte counts. -/
def admitPair (a b d e : CandidateView) : Except Code (ℕ × ℕ × ℕ × ℕ × ℕ) :=
  if a.columns ≠ b.rows ∨ b.columns ≠ d.rows ∨ e.rows ≠ a.rows ∨ e.columns ≠ d.columns then
    .error .shapeMismatch
  else if !ClosedHost.closedGpuFusedPairCompatible a.rows a.columns b.columns d.columns then
    .error .candidateIncompatible
  else
    match bytes a.rows a.columns, bytes b.rows b.columns, bytes d.rows d.columns,
        bytes e.rows e.columns, bytes (min 4 a.rows) b.columns with
    | some sizeA, some sizeB, some sizeD, some sizeE, some sizePanel =>
      match range a.data sizeA, range b.data sizeB, range d.data sizeD, range e.data sizeE with
      | some ra, some rb, some rd, some re =>
        if overlap sizeE sizeA re ra || overlap sizeE sizeB re rb || overlap sizeE sizeD re rd then
          .error .invalidView
        else .ok (sizeA, sizeB, sizeD, sizeE, sizePanel)
      | _, _, _, _ => .error .invalidView
    | _, _, _, _, _ => .error .extentOverflow

def executePair (build : Build) (env : Environment) (a b d e : CandidateView) (device : ℤ) :
    M Code :=
  match admitPair a b d e with
  | .error code => return code
  | .ok (sizeA, sizeB, sizeD, sizeE, sizePanel) =>
    if cudaFusedPairImageAvailable build ≠ .ok then return .candidateUnavailable
    else if sizeE = 0 then return .ok
    else if b.columns = 0 then return .candidateIncompatible
    else frameOf driver env (fusedPairRecipe sizeA sizeB sizeD sizeE sizePanel) device

def isolated (env : Environment) (work : M Code) : M Code := do
  if (← get).poisoned then return .candidateFailure
  match env.worker with
  | .noMemory => return .allocationFailure
  | .failed => return .candidateFailure
  | .started => if env.fesetenv then work else return .unsupportedFpEnvironment

/-- The work of an invocation on the device that `discover` selects. -/
def onDevice (env : Environment) (work : ℤ → M Code) : M Code :=
  isolated env do
    match ← discover driver with
    | .error code => return code
    | .ok device => work device

def cudaCandidateAvailable (env : Environment) : M Code := onDevice driver env fun _ => return .ok

def cudaGemmCandidate (build : Build) (env : Environment) (a b c : CandidateView) : M Code :=
  onDevice driver env (execute driver build env a b c)

def cudaFusedPairCandidate (build : Build) (env : Environment) (a b d e : CandidateView) :
    M Code :=
  if build.fusedPair then onDevice driver env (executePair driver build env a b d e)
  else return .candidateUnavailable

end Functions

/-- A call of one of the entry points. -/
inductive Invocation where
  | available (env : Environment)
  | gemm (env : Environment) (a b c : CandidateView)
  | fusedPair (env : Environment) (a b d e : CandidateView)

def invoke (build : Build) (driver : ℕ → CudaReply) : Invocation → M Code
  | .available env => cudaCandidateAvailable driver env
  | .gemm env a b c => cudaGemmCandidate driver build env a b c
  | .fusedPair env a b d e => cudaFusedPairCandidate driver build env a b d e

/-- The code of an invocation whose route the build left out. -/
def rejection (build : Build) : Invocation → Option Code
  | .fusedPair .. => if build.fusedPair then none else some .candidateUnavailable
  | _ => none

end Matcore.Gpu.Cuda
