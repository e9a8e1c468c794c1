import Matcore.Gpu.Candidate

/-!
# The ROCm candidate

`closed_rocdl_candidate_v1.cpp`. A frame owns a stream, two modules, five device buffers and the
host staging of one invocation. The worker thread is joined before an invocation returns, so an
invocation is a sequential program over the state of the adapter.
-/

namespace Matcore.Gpu.Rocdl

open ClosedHost (Code)
open Async

def maxExtent : ℕ := 65535

/-- The driver resources of a frame. -/
inductive Slot where
  | a | b | c | d | panel
  | fillModule | gemmModule
  | stream
  deriving DecidableEq

inductive Image where
  | fill | gemm | fusedPair
  deriving DecidableEq

inductive HipCall where
  | getDeviceCount
  | getDeviceProperties (device : ℕ)
  | setDevice (device : ℕ)
  | streamCreateWithFlags
  | moduleLoadData (module : Slot) (image : Image)
  | moduleGetFunction (module : Slot)
  | malloc (pointer : Slot) (bytes : ℕ)
  | memcpyHostToDeviceAsync (pointer : Slot) (bytes : ℕ)
  | memcpyDeviceToHostAsync (pointer : Slot) (bytes : ℕ)
  | moduleLaunchKernel (module : Slot) (gridX gridY : ℕ)
  | streamSynchronize
  | free (pointer : Slot)
  | moduleUnload (module : Slot)
  | streamDestroy
  deriving DecidableEq

/-- `hipDeviceProp_t`, as far as `discover` reads it. -/
structure HipDeviceProp where
  gcnArchName : List Char := []
  maxGridSize : ℤ × ℤ × ℤ := (0, 0, 0)
  maxThreadsPerBlock : ℤ := 0

/-- The return code of a call and what it leaves in its out-parameters. -/
structure HipReply where
  success : Bool
  count : ℤ := 0
  properties : HipDeviceProp := {}
  handle : Option ℕ := none

structure Frame where
  handle : Slot → Option ℕ := fun _ => none
  workMayBePending : Bool := false

def Frame.set (frame : Frame) (slot : Slot) (handle : Option ℕ) : Frame :=
  { frame with handle := Function.update frame.handle slot handle }

def HipCall.role : HipCall → Role Slot
  | .memcpyHostToDeviceAsync .. | .memcpyDeviceToHostAsync .. | .moduleLaunchKernel .. => .queue
  | .streamSynchronize => .synchronise
  | .free slot | .moduleUnload slot => .release slot
  | .streamDestroy => .release .stream
  | _ => .plain

/-- What a call stores in the frame. A release clears its slot only when it succeeds. -/
def HipCall.update (reply : HipReply) (frame : Frame) : HipCall → Frame
  | .streamCreateWithFlags => frame.set .stream reply.handle
  | .moduleLoadData slot _ | .malloc slot _ => frame.set slot reply.handle
  | .free slot | .moduleUnload slot => if reply.success then frame.set slot none else frame
  | .streamDestroy => if reply.success then frame.set .stream none else frame
  | _ => frame

def adapter : Adapter HipCall Slot Frame HipReply where
  role := HipCall.role
  accepts _ _ reply := reply.success
  update c reply frame := c.update reply frame

abbrev M := StateM (World HipCall Frame)

/-- What the build decides about the fused pair. -/
structure Build where
  fusedPair : Bool
  fusedPairImageSize : ℕ

section Functions

variable (driver : ℕ → HipReply)

def isGfx1150 (name : List Char) : Bool :=
  name.take 7 == "gfx1150".toList && (name[7]? == none || name[7]? == some ':')

/-- The loop of `discover`. -/
def discoverFrom : List ℕ → M (Except Code ℕ)
  | [] => pure (.error .candidateUnavailable)
  | device :: rest => do
    let (succeeded, reply) ← call adapter driver (.getDeviceProperties device)
    if !succeeded then return .error .candidateUnavailable
    let properties := reply.properties
    if !isGfx1150 properties.gcnArchName then discoverFrom rest
    else if properties.maxGridSize.1 < maxExtent || properties.maxGridSize.2.1 < maxExtent ||
        properties.maxGridSize.2.2 < 1 || properties.maxThreadsPerBlock < 1 then
      return .error .candidateUnavailable
    else return .ok device

def discover : M (Except Code ℕ) := do
  if (← get).poisoned then return .error .candidateFailure
  let (succeeded, reply) ← call adapter driver .getDeviceCount
  if !succeeded then return .error .candidateUnavailable
  discoverFrom driver (List.range reply.count.toNat)

def footprint (rows cols : ℕ) : Option ℕ :=
  if rows > maxExtent ∨ cols > maxExtent then none
  else if cols ≠ 0 ∧ rows > (2 ^ 63 - 1) / 4 / cols then none
  else some (rows * cols)

def range (pointer count : ℕ) : Option (ℕ × ℕ) := hostRange pointer (count * 4)

/-- The slots in the order of `release`. -/
def releaseOrder : List Slot := [.a, .b, .c, .d, .panel, .fillModule, .gemmModule, .stream]

def freeCall : Slot → HipCall
  | .fillModule => .moduleUnload .fillModule
  | .gemmModule => .moduleUnload .gemmModule
  | .stream => .streamDestroy
  | slot => .free slot

def release : M Bool :=
  releaseAll adapter driver (fun frame slot => (frame.handle slot).isSome) freeCall
    releaseOrder true

/-- Waits for the queue where something may be pending. -/
def settle : M Bool := do
  if (← get).frame.workMayBePending then perform adapter driver .streamSynchronize
  else return true

/-- The end of an invocation whose frame is released. -/
def finish (code : Code) (released : Bool) : M Code := do
  if released then destroy else quarantine
  return code

def failed (code : Code) : M Code := do
  if !(← settle driver) then
    quarantine
    return code
  touch fun frame => { frame with workMayBePending := false }
  finish code (← release driver)

/-- The calls in which the two routes differ, with their places in the protocol. -/
structure Recipe where
  prepare : List HipCall
  allocate : List HipCall
  upload : List HipCall
  launch : List HipCall
  prepare_plain : ∀ c ∈ prepare, c.role = .plain
  allocate_plain : ∀ c ∈ allocate, c.role = .plain
  upload_queue : ∀ c ∈ upload, c.role = .queue
  launch_queue : ∀ c ∈ launch, c.role = .queue

/-- The allocation or the upload of a buffer, left out for an empty one. -/
def unlessEmpty (count : ℕ) (c : HipCall) : List HipCall := if count ≠ 0 then [c] else []

theorem role_of_mem_unlessEmpty {count : ℕ} {c c' : HipCall} (h : c' ∈ unlessEmpty count c) :
    c'.role = c.role := by
  unfold unlessEmpty at h
  split at h
  · rw [List.mem_singleton.1 h]
  · cases h

/-- `execute` and `executePair` from the stream on. -/
def stage (recipe : Recipe) : M Code := do
  if !(← attempt adapter driver [.streamCreateWithFlags]) then
    return ← failed driver .candidateFailure
  if !(← attempt adapter driver recipe.prepare) then
    return ← failed driver .candidateFailure
  if !(← attempt adapter driver recipe.allocate) then
    return ← failed driver .allocationFailure
  -- set before the first asynchronous call: its error does not prove that nothing was queued
  touch fun frame => { frame with workMayBePending := true }
  if !(← attempt adapter driver recipe.upload) then
    return ← failed driver .candidateFailure
  if !(← attempt adapter driver recipe.launch) then
    return ← failed driver .candidateFailure
  if !(← perform adapter driver .streamSynchronize) then
    return ← failed driver .candidateFailure
  touch fun frame => { frame with workMayBePending := false }
  if !(← release driver) then
    quarantine
    return .candidateFailure
  record .write
  destroy
  return .ok

/-- The allocations on the host before the first driver call of a frame. -/
def frameOf (env : Environment) (recipe : Recipe) : M Code :=
  match env.staging with
  | .noFrame => return .allocationFailure
  | .noBuffers => do
    openFrame {}
    destroy
    return .allocationFailure
  | .allocated => do
    openFrame {}
    stage driver recipe

def gemmRecipe (ac bc cc m n : ℕ) : Recipe where
  prepare := [.moduleLoadData .fillModule .fill, .moduleLoadData .gemmModule .gemm,
    .moduleGetFunction .fillModule, .moduleGetFunction .gemmModule]
  allocate := unlessEmpty ac (.malloc .a (ac * 4)) ++ unlessEmpty bc (.malloc .b (bc * 4)) ++
    unlessEmpty cc (.malloc .c (cc * 4))
  upload := unlessEmpty ac (.memcpyHostToDeviceAsync .a (ac * 4)) ++
    unlessEmpty bc (.memcpyHostToDeviceAsync .b (bc * 4))
  launch := [.moduleLaunchKernel .fillModule m n, .moduleLaunchKernel .gemmModule m n,
    .memcpyDeviceToHostAsync .c (cc * 4)]
  prepare_plain := by simp [HipCall.role]
  allocate_plain := by
    intro c hc
    simp only [List.mem_append] at hc
    rcases hc with (hc | hc) | hc <;> exact role_of_mem_unlessEmpty hc
  upload_queue := by
    intro c hc
    rcases List.mem_append.1 hc with hc | hc <;> exact role_of_mem_unlessEmpty hc
  launch_queue := by simp [HipCall.role]

def execute (env : Environment) (output : CandidateView) (ac bc cc : ℕ) : M Code := do
  match ← discover driver with
  | .error code => return code
  | .ok selected =>
    if !(← perform adapter driver (.setDevice selected)) then return .candidateUnavailable
    if cc = 0 then return .ok
    frameOf driver env (gemmRecipe ac bc cc output.rows output.columns)

def fusedPairRecipe (ac bc dc ec pc : ℕ) : Recipe where
  prepare := [.moduleLoadData .gemmModule .fusedPair, .moduleGetFunction .gemmModule]
  allocate := unlessEmpty ac (.malloc .a (ac * 4)) ++ unlessEmpty bc (.malloc .b (bc * 4)) ++
    unlessEmpty dc (.malloc .d (dc * 4)) ++ unlessEmpty ec (.malloc .c (ec * 4)) ++
    unlessEmpty pc (.malloc .panel (pc * 4))
  upload := unlessEmpty ac (.memcpyHostToDeviceAsync .a (ac * 4)) ++
    unlessEmpty bc (.memcpyHostToDeviceAsync .b (bc * 4)) ++
    unlessEmpty dc (.memcpyHostToDeviceAsync .d (dc * 4))
  launch := [.moduleLaunchKernel .gemmModule 1 1, .memcpyDeviceToHostAsync .c (ec * 4)]
  prepare_plain := by simp [HipCall.role]
  allocate_plain := by
    intro c hc
    simp only [List.mem_append] at hc
    rcases hc with (((hc | hc) | hc) | hc) | hc <;> exact role_of_mem_unlessEmpty hc
  upload_queue := by
    intro c hc
    simp only [List.mem_append] at hc
    rcases hc with (hc | hc) | hc <;> exact role_of_mem_unlessEmpty hc
  launch_queue := by simp [HipCall.role]

def rocdlFusedPairImageAvailable (build : Build) : Code :=
  if build.fusedPair && 64 ≤ build.fusedPairImageSize then .ok else .candidateUnavailable

def executePair (build : Build) (env : Environment) (b : CandidateView) (ac bc dc ec pc : ℕ) :
    M Code := do
  match ← discover driver with
  | .error code => return code
  | .ok selected =>
    if !(← perform adapter driver (.setDevice selected)) then return .candidateUnavailable
    if rocdlFusedPairImageAvailable build ≠ .ok then return .candidateUnavailable
    if ec = 0 then return .ok
    if b.columns = 0 then return .candidateIncompatible
    frameOf driver env (fusedPairRecipe ac bc dc ec pc)

def isolated (env : Environment) (work : M Code) : M Code := do
  if (← get).poisoned then return .candidateFailure
  if env.hsaOverride then return .candidateUnavailable
  match env.worker with
  | .noMemory => return .allocationFailure
  | .failed => return .candidateFailure
  | .started => if env.fesetenv then work else return .unsupportedFpEnvironment

def rocdlCandidateAvailable (env : Environment) : M Code :=
  isolated env do
    match ← discover driver with
    | .error code => return code
    | .ok _ => return .ok

/-- The checks of `rocdlGemmCandidate` before the worker starts, with the element counts. -/
def admitGemm (lhs rhs output : CandidateView) : Except Code (ℕ × ℕ × ℕ) :=
  if lhs.columns ≠ rhs.rows ∨ output.rows ≠ lhs.rows ∨ output.columns ≠ rhs.columns then
    .error .shapeMismatch
  else
    match footprint lhs.rows lhs.columns, footprint rhs.rows rhs.columns,
        footprint output.rows output.columns with
    | some ac, some bc, some cc =>
      if !ClosedHost.closedGpuShapeCompatible lhs.rows rhs.columns lhs.columns then
        .error .candidateIncompatible
      else
        match range lhs.data ac, range rhs.data bc, range output.data cc with
        | some a, some b, some c =>
          if overlap cc ac c a || overlap cc bc c b then .error .invalidView
          else .ok (ac, bc, cc)
        | _, _, _ => .error .invalidView
    | _, _, _ => .error .candidateIncompatible

def rocdlGemmCandidate (env : Environment) (lhs rhs output : CandidateView) : M Code :=
  match admitGemm lhs rhs output with
  | .error code => return code
  | .ok (ac, bc, cc) => isolated env (execute driver env output ac bc cc)

/-- The checks of `rocdlFusedPairCandidate` before the worker starts. -/
def admitPair (build : Build) (a b d e : CandidateView) : Except Code (ℕ × ℕ × ℕ × ℕ × ℕ) :=
  if !build.fusedPair then .error .candidateUnavailable
  else if a.columns ≠ b.rows ∨ b.columns ≠ d.rows ∨ e.rows ≠ a.rows ∨ e.columns ≠ d.columns then
    .error .shapeMismatch
  else if !ClosedHost.closedGpuFusedPairCompatible a.rows a.columns b.columns d.columns then
    .error .candidateIncompatible
  else
    match footprint a.rows a.columns, footprint b.rows b.columns, footprint d.rows d.columns,
        footprint e.rows e.columns, footprint (min 4 a.rows) b.columns with
    | some ac, some bc, some dc, some ec, some pc =>
      match range a.data ac, range b.data bc, range d.data dc, range e.data ec with
      | some ra, some rb, some rd, some re =>
        if overlap ec ac re ra || overlap ec bc re rb || overlap ec dc re rd then
          .error .invalidView
        else .ok (ac, bc, dc, ec, pc)
      | _, _, _, _ => .error .invalidView
    | _, _, _, _, _ => .error .candidateIncompatible

def rocdlFusedPairCandidate (build : Build) (env : Environment) (a b d e : CandidateView) :
    M Code :=
  match admitPair build a b d e with
  | .error code => return code
  | .ok (ac, bc, dc, ec, pc) => isolated env (executePair driver build env b ac bc dc ec pc)

end Functions

/-- A call of one of the entry points. -/
inductive Invocation where
  | available (env : Environment)
  | gemm (env : Environment) (lhs rhs output : CandidateView)
  | fusedPair (env : Environment) (a b d e : CandidateView)

def invoke (build : Build) (driver : ℕ → HipReply) : Invocation → M Code
  | .available env => rocdlCandidateAvailable driver env
  | .gemm env lhs rhs output => rocdlGemmCandidate driver env lhs rhs output
  | .fusedPair env a b d e => rocdlFusedPairCandidate driver build env a b d e

def rejected {α : Type} : Except Code α → Option Code
  | .error code => some code
  | .ok _ => none

/-- The code with which the arguments alone reject an invocation. -/
def rejection (build : Build) : Invocation → Option Code
  | .available _ => none
  | .gemm _ lhs rhs output => rejected (admitGemm lhs rhs output)
  | .fusedPair _ a b d e => rejected (admitPair build a b d e)

end Matcore.Gpu.Rocdl
