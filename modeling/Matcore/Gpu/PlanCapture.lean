import Matcore.Gpu.GraphMode

/-!
# Plans that fail

`MatcorePlan` of `jit_runner.cpp` with everything that may throw: the plans of one thread, the state
of that thread in `gpu_runtime_symbols.cpp` and the streams and executables of the driver. What a
kernel does is left out. A stream or an executable is named by the number of those created before it.
-/

namespace Matcore.Gpu.PlanCapture

open GraphMode (RuntimeTensorView)

/-- What `invokeCompiledKernel` does: it returns, with or without an error, or throws. -/
inductive InvokeResult where
  | ok
  | error (message : String)
  | throws (message : String)

/-- Where `matcore_graph_end_capture` ends: before its driver calls, at `cuStreamEndCapture`, behind
it without a graph, at `cuGraphInstantiate`, or with an executable. -/
inductive EndResult where
  | contextFails (message : String)
  | endFails (message : String)
  | nullGraph
  | instantiateFails (message : String)
  | ok
  deriving DecidableEq

/-- What the steps of a call of `execute` answer, where it takes them. A step that may only throw
has the text. -/
structure Outcomes where
  zero : Option String := none
  invoke : InvokeResult := .ok
  beginCapture : Option String := none
  zeroOnStream : Option String := none
  captureInvoke : InvokeResult := .ok
  endCapture : EndResult := .ok
  launch : Option String := none
  synchronize : Option String := none

/-- A plan. The kernel is compiled, or was moved away. -/
structure MatcorePlan where
  plan : GraphMode.Plan
  hasExecution : Bool := true
  graphStream : Option ℕ := none
  graphExec : Option ℕ := none
  graphCaptured : Bool := false
  capturedPtrs : List ℕ := []

structure ThreadState where
  warmup : Bool := false
  captureStreamOverride : Option ℕ := none
  /-- `g_capture_module_cache.active` -/
  active : Bool := false

structure Driver where
  /-- the streams and the executables created so far -/
  streams : ℕ := 0
  execs : ℕ := 0
  capturing : ℕ → Bool := fun _ => false
  /-- history: the pointers that an executable was recorded for -/
  recorded : ℕ → List ℕ := fun _ => []
  /-- history: the calls that destroy a stream or an executable -/
  destroyedStreams : List ℕ := []
  destroyedExecs : List ℕ := []

structure State where
  thread : ThreadState := {}
  driver : Driver := {}
  plans : ℕ → Option MatcorePlan := fun _ => none

namespace State

variable (s : State)

def setPlan (name : ℕ) (plan : Option MatcorePlan) : State :=
  { s with plans := Function.update s.plans name plan }

/-- `matcore_set_graph_warmup`. -/
def setGraphWarmup (enable : Bool) : State := { s with thread := { s.thread with warmup := enable } }

/-- `matcore_set_capture_stream_override`. -/
def setCaptureStreamOverride (stream : Option ℕ) : State :=
  { s with
    thread := { s.thread with captureStreamOverride := stream, active := stream.isSome } }

def setCapturing (stream : ℕ) (capturing : Bool) : State :=
  { s with
    driver := { s.driver with capturing := Function.update s.driver.capturing stream capturing } }

/-- A new executable. -/
def newExec (ptrs : List ℕ) : State :=
  { s with
    driver := { s.driver with
      execs := s.driver.execs + 1
      recorded := Function.update s.driver.recorded s.driver.execs ptrs } }

/-- `matcore_graph_end_capture`, of a capture with these pointers. `cuStreamEndCapture` ends it
whatever it returns. -/
def graphEndCapture (stream : ℕ) (ptrs : List ℕ) : EndResult → State × Except String ℕ
  | .contextFails message => (s, .error message)
  | .endFails message => (s.setCapturing stream false, .error message)
  | .nullGraph =>
    (s.setCapturing stream false, .error "matcore_graph_end_capture: capture produced null graph")
  | .instantiateFails message => (s.setCapturing stream false, .error message)
  | .ok => ((s.setCapturing stream false).newExec ptrs, .ok s.driver.execs)

/-- `matcore_graph_exec_destroy`. -/
def graphExecDestroy (exec : ℕ) : State :=
  { s with driver := { s.driver with destroyedExecs := exec :: s.driver.destroyedExecs } }

/-- `matcore_graph_stream_destroy`. -/
def graphStreamDestroy (stream : ℕ) : State :=
  { s with driver := { s.driver with destroyedStreams := stream :: s.driver.destroyedStreams } }

/-- The graph resources of a plan are destroyed. -/
def destroyGraph (plan : MatcorePlan) : State :=
  let s := match plan.graphExec with
    | some exec => s.graphExecDestroy exec
    | none => s
  match plan.graphStream with
  | some stream => s.graphStreamDestroy stream
  | none => s

/-- The capture of `execute`, behind the warm-up. `matcore_graph_begin_capture` is its first call. -/
def capture (name : ℕ) (plan : MatcorePlan) (tensors : List RuntimeTensorView) (o : Outcomes) :
    State × Option String :=
  let ptrs := tensors.map (·.data)
  let s := s.setCaptureStreamOverride plan.graphStream
  match plan.graphStream with
  | none => (s, some "matcore_graph_begin_capture: stream is null")
  | some stream =>
    match o.beginCapture with
    | some message => (s, some message)
    | none =>
      let s := s.setCapturing stream true
      match if plan.plan.needsOutputZeroing then o.zeroOnStream else none with
      | some message => (s, some message)
      | none =>
        match o.captureInvoke with
        | .throws message => (s, some message)
        | .error message =>
          -- what is thrown here is caught
          let s := match (s.setCaptureStreamOverride none).graphEndCapture stream ptrs o.endCapture with
            | (s, .ok exec) => s.graphExecDestroy exec
            | (s, .error _) => s
          (s, some ("execute_plan: capture failed: " ++ message))
        | .ok =>
          match (s.setCaptureStreamOverride none).graphEndCapture stream ptrs o.endCapture with
          | (s, .error message) => (s, some message)
          | (s, .ok exec) =>
            (s.setPlan name (some { plan with
              graphExec := some exec, graphCaptured := true, capturedPtrs := ptrs }), o.synchronize)

/-- `MatcorePlan::execute`: the state behind it, and the text if it throws. -/
def execute (name : ℕ) (plan : MatcorePlan) (tensors : List RuntimeTensorView) (o : Outcomes) :
    State × Option String :=
  match plan.plan.validateTensors tensors with
  | some message => (s, some ("execute_plan: " ++ message))
  | none =>
    if plan.plan.graphMode then
      if plan.graphCaptured then
        match GraphMode.Plan.firstMoved 0 (plan.capturedPtrs.zip tensors) with
        | some message => (s, some message)
        | none => (s, o.launch.orElse fun _ => o.synchronize)
      else
        let s := s.setGraphWarmup true
        match if plan.plan.needsOutputZeroing then o.zero else none with
        | some message => (s, some message)
        | none =>
          match o.invoke with
          | .throws message => (s, some message)
          | .error message =>
            (s.setGraphWarmup false, some ("execute_plan: warm-up failed: " ++ message))
          | .ok => (s.setGraphWarmup false).capture name plan tensors o
    else
      match if plan.plan.needsOutputZeroing then o.zero else none with
      | some message => (s, some message)
      | none =>
        match o.invoke with
        | .throws message => (s, some message)
        | .error message => (s, some ("execute_plan: failed to invoke kernel: " ++ message))
        | .ok => (s, none)

/-- The plan that is left where one was moved away. -/
def movedFrom (plan : MatcorePlan) : MatcorePlan :=
  { plan with
    plan := { plan.plan with frozenMeta := [] }
    hasExecution := false
    graphStream := none
    graphExec := none
    graphCaptured := false
    capturedPtrs := [] }

inductive Action where
  /-- `MatcorePlan::create`, with what `cuStreamCreate` answers -/
  | create (name : ℕ) (plan : GraphMode.Plan) (fails : Option String)
  | execute (name : ℕ) (tensors : List RuntimeTensorView) (outcomes : Outcomes)
  | moveConstruct (name source : ℕ)
  | moveAssign (name source : ℕ)
  | destroy (name : ℕ)

/-- One step, and the text if it throws. A name is given once, and a plan that was moved away is not
executed. -/
def step (s : State) : Action → Option (State × Option String)
  | .create name plan fails =>
    if (s.plans name).isSome then none
    else if plan.graphMode then
      match fails with
      | some message => some (s, some message)
      | none =>
        let stream := s.driver.streams
        some ({ s with driver := { s.driver with streams := stream + 1 } }.setPlan name
          (some { plan, graphStream := some stream }), none)
    else some (s.setPlan name (some { plan }), none)
  | .execute name tensors outcomes => do
    let plan ← s.plans name
    if plan.hasExecution then some (s.execute name plan tensors outcomes) else none
  | .moveConstruct name source => do
    let plan ← s.plans source
    if (s.plans name).isSome then none
    else some ((s.setPlan name (some plan)).setPlan source (some (movedFrom plan)), none)
  | .moveAssign name source => do
    let own ← s.plans name
    let plan ← s.plans source
    if name = source then some (s, none)
    else
      some (((s.destroyGraph own).setPlan name (some plan)).setPlan source (some (movedFrom plan)),
        none)
  | .destroy name => do
    let plan ← s.plans name
    some ((s.destroyGraph plan).setPlan name none, none)

end State

end Matcore.Gpu.PlanCapture
