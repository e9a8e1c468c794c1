import Matcore.Proof.GraphCapture

/-!
# Graph replay against ordinary execution

What a call of `execute` issues with graph mode and without.
-/

namespace Matcore.Gpu.GraphMode

open Except (bind_eq_ok ok_bind ok)
open StreamOrder (Event pending outcome settled_append)
open List (foldl_append append_assoc mem_filterMap map_id map_append filterMap_append mem_map
  not_mem_nil)

variable {driver : Driver}

/-- The work that zeroes an output. -/
def zeroWork? (pair : FrozenTensorMeta × RuntimeTensorView) : Option Work :=
  if pair.1.isOutput ∧ pair.2.data ≠ 0 ∧ pair.1.sizeBytes ≠ 0 then
    some (if pair.1.sizeBytes % 4 = 0 then .memset32 pair.2.data 0 (pair.1.sizeBytes / 4)
      else .memset16 pair.2.data 0 (pair.1.sizeBytes / 2))
  else none

/-- Work is issued to a stream, one item after the other. -/
def State.issueAll (stream : Stream) (s : State) (works : List Work) : State :=
  works.foldl (fun s work => s.issue stream work) s

/-- Work on a stream. -/
def onStream {S : Type} (stream : S) (works : List Work) : List (Event S Operation) :=
  works.map fun work => .work stream (.work work)

theorem issueAll_append (stream : Stream) (s : State) (ws ws' : List Work) :
    (s.issueAll stream ws).issueAll stream ws' =
      s.issueAll stream (ws ++ ws') :=
  foldl_append.symm

theorem issueAll_plain {s : State} (h : s.capture = none) (stream : Stream) (works : List Work) :
    s.issueAll stream works = { s with issued := s.issued ++ onStream stream works } := by
  induction works generalizing s with
  | nil => simp [State.issueAll, onStream]
  | cons work works ih =>
    have hstep := issue_plain h stream work
    have hcapture : (s.issue stream work).capture = none := by rw [hstep]; exact h
    have hrest := ih hcapture
    rw [hstep] at hrest
    simpa [State.issueAll, onStream, hstep, State.log] using hrest

theorem issueAll_captured {s : State} {before : List Work} (h : s.capture = some before)
    (works : List Work) : s.issueAll .graph works =
      { s with capture := some (before ++ works) } := by
  induction works generalizing s before with
  | nil => simp [State.issueAll, ← h]
  | cons work works ih =>
    have hstep : s.issue .graph work = { s with capture := some (before ++ [work]) } := by
      unfold State.issue
      rw [h]
      rfl
    have hcapture : (s.issue .graph work).capture = some (before ++ [work]) := by
      rw [hstep]
    have hrest := ih hcapture
    rw [hstep, append_assoc] at hrest
    simpa [State.issueAll, hstep] using hrest

theorem zeroTensor_any {frozen : FrozenTensorMeta} {tensor : RuntimeTensorView} {name : String}
    {stream : Stream} {s s' : State} (hresident : tensor.isDeviceResident = true)
    (h : zeroTensor name stream frozen tensor s = .ok s') (label : String) (target : Stream)
    (t : State) : zeroTensor label target frozen tensor t =
      .ok (t.issueAll target (zeroWork? (frozen, tensor)).toList) := by
  unfold zeroTensor at h ⊢
  by_cases houtput : frozen.isOutput ∧ tensor.data ≠ 0
  · rw [if_pos houtput, if_pos hresident] at h ⊢
    unfold deviceZeroRaw at h ⊢
    by_cases hempty : frozen.sizeBytes = 0
    · simp [zeroWork?, hempty, State.issueAll]
    · have hskip : ¬ (tensor.data = 0 ∨ frozen.sizeBytes = 0) := by
        simp [houtput.2, hempty]
      rw [if_neg hskip] at h ⊢
      by_cases hfour : frozen.sizeBytes % 4 = 0
      · simp [zeroWork?, houtput.1, houtput.2, hempty, hfour, State.issueAll]
      · rw [if_neg hfour] at h ⊢
        split at h
        · rename_i htwo
          simp [zeroWork?, houtput.1, houtput.2, hempty, hfour, htwo, State.issueAll]
        · cases h
  · have hnone : zeroWork? (frozen, tensor) = none := by
      unfold zeroWork?
      rw [if_neg]
      exact fun hx => houtput ⟨hx.1, hx.2.1⟩
    rw [if_neg houtput, hnone]
    rfl

theorem zeroTensors_any {pairs : List (FrozenTensorMeta × RuntimeTensorView)} {name : String}
    {stream : Stream} {s s' : State} (hresident : ∀ pair ∈ pairs, pair.2.isDeviceResident = true)
    (h : zeroTensors name stream pairs s = .ok s') (label : String) (target : Stream)
    (t : State) : zeroTensors label target pairs t =
      .ok (t.issueAll target (pairs.filterMap zeroWork?)) := by
  induction pairs generalizing s t with
  | nil => rfl
  | cons pair pairs ih =>
    obtain ⟨s₁, hfirst, hrest⟩ := bind_eq_ok h
    have hpair := zeroTensor_any (hresident pair List.mem_cons_self) hfirst label target t
    rw [zeroTensors, hpair, ok_bind,
      ih (fun p hp => hresident p (List.mem_cons_of_mem _ hp)) hrest, issueAll_append,
      filterMap_cons_toList]

namespace Plan

/-- The plan without graph mode. -/
def plain (plan : Plan) : Plan := { plan with graphMode := false }

/-- The work that zeroes the outputs. -/
def zeroWorks (plan : Plan) (tensors : List RuntimeTensorView) : List Work :=
  if plan.needsOutputZeroing then (plan.frozenMeta.zip tensors).filterMap zeroWork? else []

/-- The work of a call. -/
def works (plan : Plan) (driver : Driver) (tensors : List RuntimeTensorView) : List Work :=
  plan.zeroWorks tensors ++ plan.program.filterMap (Call.work driver (fetched plan.program))

/-- The events of the host code, with its streams by number. -/
def events (plan : Plan) (driver : Driver) : List (Event ℕ Operation) :=
  plan.program.filterMap (Call.event driver (fetched plan.program))

/-- The same work, with every function replaced by the last one. -/
def lastWorks (plan : Plan) (driver : Driver) (tensors : List RuntimeTensorView) :
    List Work :=
  (plan.works driver tensors).map (Work.mapFunction (answer (fetched plan.program).getLast?))

/-- Every tensor is on the device, and the host code stages nothing. -/
structure Resident (plan : Plan) (driver : Driver) (tensors : List RuntimeTensorView) :
    Prop where
  tensors : ∀ tensor ∈ tensors, tensor.isDeviceResident = true
  program : ∀ call ∈ plan.program, call.Resident driver

/-- Every launch is of the function that the kernel fetched last. -/
def LaunchesLast (plan : Plan) : Prop :=
  ∀ function grid block smem stream params,
    .launchKernel function grid block smem stream params ∈ plan.program →
      (fetched plan.program)[function]? = (fetched plan.program).getLast?

/-- The modules of the kernel are loaded by `mgpuModuleLoadJIT`, or can be loaded in a capture. -/
def Loadable (plan : Plan) (driver : Driver) : Prop :=
  driver.loadsInCapture = true ∨ ∀ image, .moduleLoad image ∉ plan.program

end Plan

variable {plan : Plan} {tensors : List RuntimeTensorView} {s s' g : State}

theorem resident_zip (h : plan.Resident driver tensors) :
    ∀ pair ∈ plan.frozenMeta.zip tensors, pair.2.isDeviceResident = true :=
  fun pair hpair => h.tensors _ (List.of_mem_zip (by rwa [Prod.eta])).2

theorem mapFunction_zeroWorks (f : Function → Function) :
    ∀ work ∈ plan.zeroWorks tensors, work.mapFunction f = work := by
  intro work hwork
  unfold Plan.zeroWorks at hwork
  split at hwork
  · obtain ⟨pair, -, hpair⟩ := mem_filterMap.1 hwork
    unfold zeroWork? at hpair
    split at hpair
    · cases hpair
      split <;> rfl
    · cases hpair
  · cases hwork

/-- What an invocation does outside of a capture. -/
structure Ran (plan : Plan) (driver : Driver) (tensors : List RuntimeTensorView)
    (s s' : State) : Prop where
  override : s'.captureStreamOverride = none
  capture : s'.capture = none
  issued : ∃ streams, s'.issued = s.issued ++ (onStream .null (plan.zeroWorks tensors) ++
    (plan.events driver).map (Event.onStreams (streamAt streams)))
  cached : s.cache.function = none → s'.cache.function = (fetched plan.program).getLast?
  jit : (∃ image level, .moduleLoadJIT image level ∈ plan.program) → s'.cache.module.isSome

/-- Outputs that can be zeroed are zeroed in the same way by the two functions. -/
theorem zeroOutputs_any (hresident : plan.Resident driver tensors)
    (h : plan.zeroOutputs tensors s = .ok s') (t : State) :
    plan.zeroOutputs tensors t = .ok (t.issueAll .null (plan.zeroWorks tensors)) ∧
      plan.zeroOutputsOnStream tensors t =
        .ok (t.issueAll .graph (plan.zeroWorks tensors)) := by
  unfold Plan.zeroOutputs at h ⊢
  unfold Plan.zeroWorks Plan.zeroOutputsOnStream
  by_cases hzero : plan.needsOutputZeroing = true
  · simp only [if_pos hzero] at h ⊢
    exact ⟨zeroTensors_any (resident_zip hresident) h _ _ t,
      zeroTensors_any (resident_zip hresident) h _ _ t⟩
  · simp only [if_neg hzero]
    exact ⟨rfl, rfl⟩

theorem zeroOutputs_plain (hresident : plan.Resident driver tensors) (hcapture : s.capture = none)
    (h : plan.zeroOutputs tensors s = .ok s') :
    s' = { s with issued := s.issued ++ onStream .null (plan.zeroWorks tensors) } := by
  have hzero := (zeroOutputs_any hresident h s).1
  rw [h, issueAll_plain hcapture] at hzero
  exact ok.inj hzero

theorem Invoked.fetched {frame' : Frame} {program : List Call}
    (h : Invoked driver {} s program frame' s') :
    frame'.modules = loads program ∧ frame'.functions = fetched program := by
  have hmodules : frame'.modules = loads program := h.modules
  exact ⟨hmodules, by rw [h.functions, hmodules]; rfl⟩

section

variable (hresident : plan.Resident driver tensors) (hidle : s.Idle)
  (h : plan.invoke driver tensors s = .ok s')

include hresident hidle h

theorem invoke_parts :
    ∃ s₁ frame', plan.zeroOutputs tensors s = .ok s₁ ∧
      runFrom driver {} s₁ plan.program = .ok (frame', s') ∧
      s₁.Idle ∧ s₁ = { s with issued := s.issued ++ onStream .null (plan.zeroWorks tensors) } ∧
      Invoked driver {} s₁ plan.program frame' s' := by
  obtain ⟨s₁, hzero, h⟩ := bind_eq_ok h
  obtain ⟨⟨frame', s₂⟩, hrun, h⟩ := bind_eq_ok h
  cases h
  have hs₁ := zeroOutputs_plain hresident hidle.2 hzero
  have hidle₁ : s₁.Idle := by rw [hs₁]; exact hidle
  exact ⟨s₁, frame', hzero, hrun, hidle₁, hs₁, runFrom_plain hidle₁ hresident.program hrun⟩

/-- **An invocation outside of a capture.** -/
theorem invoke_plain : Ran plan driver tensors s s' := by
  obtain ⟨s₁, frame', -, -, -, hs₁, hinvoked⟩ := invoke_parts hresident hidle h
  obtain ⟨-, hfunctions⟩ := hinvoked.fetched
  have hissued := hinvoked.issued
  have hcached := hinvoked.cached
  rw [hfunctions, hs₁] at hcached
  have hevents : plan.program.filterMap (issuedBy driver frame') =
      (plan.events driver).map (Event.onStreams (streamAt frame'.streams)) := by
    rw [Plan.events, ← hfunctions, List.map_filterMap]
    rfl
  exact {
    override := hinvoked.override
    capture := hinvoked.capture
    issued := ⟨frame'.streams, by rw [hissued, hs₁, hevents, append_assoc]⟩
    cached := hcached
    jit := fun hjit => hinvoked.jit (.inr hjit) }

end

/-- The state in which the host code is captured, behind this zeroing. -/
def State.toCapture (g : State) (works : List Work) : State :=
  State.issueAll .graph
    { g.setCaptureStreamOverride (some .graph) with capture := some [] } works

theorem toCapture_eq (g : State) (works : List Work) : g.toCapture works =
    { g.setCaptureStreamOverride (some .graph) with capture := some works } := by
  rw [State.toCapture, issueAll_captured rfl]
  rfl

theorem capturing_zeroed {cached : Option Function} (works : List Work)
    (hcached : g.cache.function = cached) :
    Capturing (g.toCapture works) cached works := by
  rw [toCapture_eq]
  exact ⟨rfl, rfl, hcached, rfl⟩

section

variable (hresident : plan.Resident driver tensors) (hidle : s.Idle)
  (h : plan.invoke driver tensors s = .ok s')
  (hjit : (∃ image level, .moduleLoadJIT image level ∈ plan.program) → g.cache.module.isSome)

include hresident hidle h hjit

/-- The warm-up has prepared the calls of the kernel. -/
theorem ready_warm (works : List Work) {call : Call} (hcall : call ∈ plan.program)
    (hload : ∀ image, call = .moduleLoad image → driver.loadsInCapture = true) :
    Ready driver (g.toCapture works) (fetched plan.program).getLast? call where
  load := hload
  jit image level he := by
    rw [toCapture_eq]
    exact hjit ⟨image, level, he ▸ hcall⟩
  fetch module name he := by
    obtain ⟨s₁, frame', -, -, -, -, hinvoked⟩ := invoke_parts hresident hidle h
    have hlt := hinvoked.defined call hcall
    subst he
    rw [Call.Defined, hinvoked.fetched.1] at hlt
    -- the function that this call fetches is in the list
    have hmem : ⟨(loads plan.program)[module], name⟩ ∈ fetched plan.program :=
      mem_filterMap.2 ⟨_, hcall, by simp [Call.fetch?, hlt]⟩
    rw [List.getLast?_isSome]
    exact List.ne_nil_of_mem hmem

/-- **The capture** issues the work of an execution, with the last function in place of all. -/
theorem capture_works (hcached : g.cache.function = (fetched plan.program).getLast?)
    (hload : plan.Loadable driver) :
    ∃ g', plan.capture driver tensors g = .ok (g', plan.lastWorks driver tensors) ∧
      g'.captureStreamOverride = none ∧ g'.capture = none ∧ g'.issued = g.issued := by
  obtain ⟨s₁, frame', hzero, hrun, hidle₁, -, hinvoked⟩ := invoke_parts hresident hidle h
  have hready : ∀ call ∈ plan.program, Ready driver (g.toCapture (plan.zeroWorks tensors))
      (fetched plan.program).getLast? call := by
    intro call hcall
    refine ready_warm hresident hidle h hjit _ hcall fun image he => ?_
    exact hload.resolve_right fun hnone => hnone image (he ▸ hcall)
  obtain ⟨gframe', hcaptured⟩ := runFrom_captured hidle₁ hresident.program hrun
    (⟨rfl, rfl, rfl⟩ : Shadow (fetched plan.program).getLast? {} {})
    (capturing_zeroed (plan.zeroWorks tensors) hcached) hready
  have hzeroes : (plan.zeroWorks tensors).map
      (Work.mapFunction (answer (fetched plan.program).getLast?)) = plan.zeroWorks tensors :=
    (List.map_congr_left (mapFunction_zeroWorks _)).trans (map_id _)
  have hworks : plan.lastWorks driver tensors = plan.zeroWorks tensors ++
      (plan.program.filterMap (Call.work driver frame'.functions)).map
        (Work.mapFunction (answer (fetched plan.program).getLast?)) := by
    rw [Plan.lastWorks, Plan.works, map_append, hzeroes, hinvoked.fetched.2]
  have hzeroed := (zeroOutputs_any hresident hzero
    { g.setCaptureStreamOverride (some .graph) with capture := some [] }).2
  rw [hworks]
  let g' : State :=
    { g with
      captureStreamOverride := none
      cache := { g.cache with active := false }
      capture := none }
  have hresult : plan.capture driver tensors g = .ok (g', plan.zeroWorks tensors ++
      (plan.program.filterMap (Call.work driver frame'.functions)).map
        (Work.mapFunction (answer (fetched plan.program).getLast?))) := by
    rw [toCapture_eq] at hcaptured
    rw [← State.toCapture, toCapture_eq] at hzeroed
    rw [Plan.capture, hzeroed, ok_bind, invokeCompiledKernel, hcaptured]
    rfl
  exact ⟨g', hresult, rfl, rfl, rfl⟩

theorem capture_fails (hcached : g.cache.function = (fetched plan.program).getLast?)
    (hload : ¬ plan.Loadable driver) (result : State × List Work) :
    plan.capture driver tensors g ≠ .ok result := by
  intro hresult
  obtain ⟨hloads, hmem⟩ := not_or.1 hload
  have hmem : ∃ image, .moduleLoad image ∈ plan.program := by
    simpa using hmem
  obtain ⟨s₁, frame', hzero, hrun, hidle₁, -, -⟩ := invoke_parts hresident hidle h
  have hzeroed := (zeroOutputs_any hresident hzero
    { g.setCaptureStreamOverride (some .graph) with capture := some [] }).2
  rw [Plan.capture, hzeroed, ok_bind] at hresult
  obtain ⟨_, hinvoke, -⟩ := bind_eq_ok hresult
  obtain ⟨captured, hcaptured, -⟩ := bind_eq_ok hinvoke
  refine runFrom_load hidle₁ hresident.program hrun (by simpa using hloads)
    (⟨rfl, rfl, rfl⟩ : Shadow (fetched plan.program).getLast? {} {})
    (capturing_zeroed (plan.zeroWorks tensors) hcached) (fun call hcall hne => ?_) hmem _ hcaptured
  exact ready_warm hresident hidle h hjit _ hcall fun image he =>
    absurd he (hne image)

end

theorem invoke_recache (hresident : plan.Resident driver tensors) (hidle : s.Idle)
    (h : plan.invoke driver tensors s = .ok s') (cache : CaptureModuleCache) :
    ∃ cache', plan.invoke driver tensors { s with cache } = .ok { s' with cache := cache' } := by
  obtain ⟨s₁, frame', hzero, hrun, hidle₁, hs₁, -⟩ := invoke_parts hresident hidle h
  have hzero' := (zeroOutputs_any hresident hzero { s with cache }).1
  rw [issueAll_plain (show State.capture { s with cache } = none from hidle.2)] at hzero'
  obtain ⟨cache', hrun'⟩ := runFrom_recache hidle₁ hresident.program hrun cache
  rw [hs₁] at hrun'
  refine ⟨cache', ?_⟩
  rw [Plan.invoke, hzero', ok_bind, invokeCompiledKernel, hrun']
  rfl

theorem Call.mapFunction_work {call : Call} {functions : List Function} {work : Work}
    (f : Function → Function) (h : call.work driver functions = some work)
    (hlaunch : ¬ ∃ function grid block smem stream params,
      call = .launchKernel function grid block smem stream params) : work.mapFunction f = work := by
  cases call with
  | launchKernel function grid block smem stream params =>
    exact absurd ⟨function, grid, block, smem, stream, params, rfl⟩ hlaunch
  | memcpy dst src sizeBytes stream =>
    simp only [Call.work] at h
    split at h
    · cases h
    · obtain ⟨kind, -, rfl⟩ := Option.map_eq_some_iff.1 h
      rfl
  | memset32 dst value count stream =>
    cases h
    rfl
  | memset16 dst value count stream =>
    cases h
    rfl
  | _ => cases h

variable (driver tensors) in
theorem lastWorks_iff_map : plan.lastWorks driver tensors = plan.works driver tensors ↔
    ∀ work ∈ plan.works driver tensors,
      work.mapFunction (answer (fetched plan.program).getLast?) = work := by
  rw [Plan.lastWorks]
  conv_lhs => rhs; rw [← map_id (plan.works driver tensors)]
  exact List.map_inj_left

variable (driver tensors) in
/-- **The works agree** when every launch is of the last function. -/
theorem lastWorks_of_last (hlast : plan.LaunchesLast) :
    plan.lastWorks driver tensors = plan.works driver tensors := by
  refine (lastWorks_iff_map driver tensors).2 fun work hwork => ?_
  rcases List.mem_append.1 hwork with hzero | hcall
  · exact mapFunction_zeroWorks _ work hzero
  · obtain ⟨call, hprogram, hsome⟩ := mem_filterMap.1 hcall
    by_cases hlaunch : ∃ function grid block smem stream params,
        call = .launchKernel function grid block smem stream params
    · obtain ⟨function, grid, block, smem, stream, params, rfl⟩ := hlaunch
      obtain ⟨found, hfound, rfl⟩ := Option.map_eq_some_iff.1 hsome
      have hanswer : answer (fetched plan.program).getLast? found = found := by
        rw [← hlast _ _ _ _ _ _ hprogram, hfound]
        rfl
      simp only [Work.mapFunction, hanswer]
    · exact Call.mapFunction_work _ hsome hlaunch

theorem last_of_lastWorks (hdefined : ∀ call ∈ plan.program, ∃ streams,
      call.Defined { modules := loads plan.program, functions := fetched plan.program, streams })
    (hsame : plan.lastWorks driver tensors = plan.works driver tensors) : plan.LaunchesLast := by
  intro function grid block smem stream params hcall
  obtain ⟨streams, hlt, -⟩ := hdefined _ hcall
  have hlt : function < (fetched plan.program).length := hlt
  have hfunction := List.getElem?_eq_getElem hlt
  have hkernel := (lastWorks_iff_map driver tensors).1 hsame
    (.kernel (fetched plan.program)[function] (unsigned3 grid) (unsigned3 block) (unsigned smem) params)
    (List.mem_append_right _ (mem_filterMap.2 ⟨_, hcall, by simp [Call.work, hfunction]⟩))
  -- there is a last function, and the launch is of it
  obtain ⟨last, hlast⟩ : ∃ last, (fetched plan.program).getLast? = some last := by
    rw [← Option.isSome_iff_exists, List.getLast?_isSome]
    exact List.ne_nil_of_length_pos (by omega)
  simp only [Work.mapFunction, answer, hlast, Option.getD_some, Work.kernel.injEq] at hkernel
  rw [hfunction, hlast, hkernel.1]

/-- Behind the warm-up the graph stream holds what the cache makes of the kernel. -/
theorem execute_first (hgraph : plan.graphMode = true) (hresident : plan.Resident driver tensors)
    (hidle : s.Idle) (hvalid : plan.validateTensors tensors = none)
    (h : plan.invoke driver tensors s = .ok s') :
    (plan.Loadable driver → ∃ g, plan.execute driver tensors (none, s) =
        .ok (some ⟨plan.lastWorks driver tensors, tensors.map (·.data)⟩, g) ∧
      g.Idle ∧ g.issued = s'.issued ++ [.synchronize .graph]) ∧
    (¬ plan.Loadable driver → ∀ result, plan.execute driver tensors (none, s) ≠ .ok result) := by
  -- the warm-up is the same invocation, with an empty cache
  obtain ⟨cache, hwarm⟩ := invoke_recache hresident hidle h
    { s.cache with warmup := true, module := none, function := none }
  have hwarm : plan.invoke driver tensors (s.setGraphWarmup true) =
      .ok { s' with cache := cache } := hwarm
  have hwarmup : (s.setGraphWarmup true).Idle := hidle
  have hran := invoke_plain hresident hwarmup hwarm
  have hexecute : plan.execute driver tensors (none, s) = (plan.capture driver tensors
      (State.setGraphWarmup { s' with cache := cache } false) >>= fun captured =>
        .ok (some ⟨captured.2, tensors.map (·.data)⟩, captured.1.synchronize .graph)) := by
    simp only [Plan.execute, hvalid, hgraph, if_true]
    exact congrArg (· >>= _) hwarm
  have hcached := hran.cached rfl
  constructor
  · intro hload
    obtain ⟨g, hcapture, hoverride, hnone, hissued⟩ := capture_works hresident hwarmup hwarm
      (g := State.setGraphWarmup { s' with cache := cache } false) hran.jit hcached hload
    have hwait := synchronize_plain hnone .graph
    refine ⟨g.synchronize .graph, ?_, ?_, ?_⟩
    · rw [hexecute, hcapture]
      rfl
    · rw [hwait]
      exact ⟨hoverride, hnone⟩
    · rw [hwait, State.log, hissued]
      rfl
  · intro hload result hresult
    rw [hexecute] at hresult
    obtain ⟨captured, hcapture, -⟩ := bind_eq_ok hresult
    exact capture_fails hresident hwarmup hwarm
      (g := State.setGraphWarmup { s' with cache := cache } false) hran.jit hcached hload _ hcapture

theorem firstMoved_same (i : ℕ) (tensors : List RuntimeTensorView) :
    Plan.firstMoved i ((tensors.map (·.data)).zip tensors) = none := by
  induction tensors generalizing i with
  | nil => rfl
  | cons tensor tensors ih => simp [Plan.firstMoved, ih]

variable (driver) in
/-- A replay issues the work of the graph. -/
theorem execute_replay (hgraph : plan.graphMode = true) (hidle : s.Idle)
    (hvalid : plan.validateTensors tensors = none) (works : List Work) :
    ∃ g, plan.execute driver tensors (some ⟨works, tensors.map (·.data)⟩, s) =
        .ok (some ⟨works, tensors.map (·.data)⟩, g) ∧
      g.Idle ∧ g.issued = s.issued ++ (onStream .graph works ++ [.synchronize .graph]) := by
  have hreplay := issueAll_plain hidle.2 .graph works
  have hnone : (s.issueAll .graph works).capture = none := by
    rw [hreplay]
    exact hidle.2
  have hwait := synchronize_plain hnone .graph
  refine ⟨(s.issueAll .graph works).synchronize .graph, ?_, ?_, ?_⟩
  · simp only [Plan.execute, hvalid, hgraph, if_true, firstMoved_same]
    rfl
  · rw [hwait, hreplay]
    exact hidle
  · rw [hwait, hreplay, State.log, append_assoc]

theorem execute_plain (hresident : plan.Resident driver tensors) (hidle : s.Idle)
    {captured captured' : Option Captured}
    (h : plan.plain.execute driver tensors (captured, s) = .ok (captured', s')) :
    captured' = none ∧ plan.validateTensors tensors = none ∧
      plan.invoke driver tensors s = .ok s' ∧ Ran plan driver tensors s s' := by
  unfold Plan.execute at h
  simp only at h
  split at h
  · cases h
  · rename_i hvalid
    have hvalid : plan.validateTensors tensors = none := by
      cases hv : plan.validateTensors tensors with
      | none => rfl
      | some message => exact absurd hv (hvalid message)
    rw [if_neg (by simp [Plan.plain])] at h
    obtain ⟨s₁, hinvoke, h⟩ := bind_eq_ok h
    cases h
    exact ⟨rfl, hvalid, hinvoke, invoke_plain hresident hidle hinvoke⟩

theorem event_op (call : Call) (functions : List Function) :
    (call.event driver functions).bind Event.op = (call.work driver functions).map Operation.work := by
  cases call with
  | streamSynchronize => rfl
  | _ =>
    simp only [Call.event, Option.bind_map]
    rw [Option.map_eq_bind]
    rfl

theorem ops_onStream {S : Type} (stream : S) (works : List Work) :
    (onStream stream works).filterMap Event.op = works.map .work := by
  rw [onStream, List.filterMap_map, ← List.filterMap_eq_map]
  rfl

theorem ops_events (streams : List Stream) :
    ((plan.events driver).map (Event.onStreams (streamAt streams))).filterMap Event.op =
      (plan.program.filterMap (Call.work driver (fetched plan.program))).map .work := by
  rw [List.filterMap_map, List.map_filterMap, Plan.events, List.filterMap_filterMap]
  refine List.filterMap_congr fun call _ => ?_
  rw [← event_op]
  exact congrArg _ (funext fun e => e.op_onStreams _)

/-- The first call of a plan in graph mode captures what the same call issues without graph mode. -/
def Plan.Captures (plan : Plan) (driver : Driver) (tensors : List RuntimeTensorView) (s : State) :
    Prop :=
  ∀ s', plan.plain.execute driver tensors (none, s) = .ok (none, s') →
    ∃ graph g, plan.execute driver tensors (none, s) = .ok (some graph, g) ∧
      s'.issued.filterMap Event.op = s.issued.filterMap Event.op ++ graph.graphExec.map .work

section

variable (hgraph : plan.graphMode = true) (hresident : plan.Resident driver tensors)
  (hidle : s.Idle) (hruns : ∃ s', plan.plain.execute driver tensors (none, s) = .ok (none, s'))

include hgraph hresident hidle hruns

/-- **What is captured.** For tensors on the device, and where the ordinary call succeeds, it is
captured exactly when every launch of the kernel is of the function that the kernel fetched last, and
its modules can be loaded behind the warm-up. -/
theorem captures_iff :
    plan.Captures driver tensors s ↔ plan.LaunchesLast ∧ plan.Loadable driver := by
  obtain ⟨s', hplain⟩ := hruns
  obtain ⟨-, hvalid, hinvoke, hran⟩ := execute_plain hresident hidle hplain
  obtain ⟨hfirst, hfails⟩ := execute_first hgraph hresident hidle hvalid hinvoke
  have hdefined : ∀ call ∈ plan.program, ∃ streams,
      call.Defined { modules := loads plan.program, functions := fetched plan.program, streams } := by
    obtain ⟨_, frame', -, -, -, -, hinvoked⟩ := invoke_parts hresident hidle hinvoke
    obtain ⟨hmodules, hfunctions⟩ := hinvoked.fetched
    exact fun call hcall => ⟨frame'.streams, (hinvoked.defined call hcall).mono
      (Nat.le_of_eq (congrArg _ hmodules)) (Nat.le_of_eq (congrArg _ hfunctions)) le_rfl⟩
  have hissued : s'.issued.filterMap Event.op =
      s.issued.filterMap Event.op ++ (plan.works driver tensors).map .work := by
    obtain ⟨streams, hissued⟩ := hran.issued
    rw [hissued, filterMap_append, filterMap_append, ops_onStream, ops_events, ← map_append]
    rfl
  constructor
  · intro hcaptures
    obtain ⟨graph, g, hexecute, hexec⟩ := hcaptures s' hplain
    have hload : plan.Loadable driver := by
      by_contra hload
      exact hfails hload _ hexecute
    obtain ⟨g', hexecute', -⟩ := hfirst hload
    rw [hexecute'] at hexecute
    cases hexecute
    have hsame := List.append_cancel_left (hexec.symm.trans hissued)
    refine ⟨last_of_lastWorks hdefined (List.map_injective_iff.2 ?_ hsame), hload⟩
    exact fun a b hab => Operation.work.inj hab
  · rintro ⟨hlast, hload⟩ s'' hs''
    cases hplain.symm.trans hs''
    obtain ⟨g, hexecute, -⟩ := hfirst hload
    exact ⟨_, g, hexecute, by rw [hissued, lastWorks_of_last driver tensors hlast]⟩

end

variable {Value : Type}

/-- Operations may change places: they are the same, or touch different cells. -/
def Device.Free (device : Device Value) (a b : Operation) : Prop :=
  a = b ∨ ¬ Reorder.Conflict (device.reads a) (device.writes a) (device.reads b) (device.writes b)

theorem Device.Free.commute {device : Device Value} {a b : Operation} (h : device.Free a b)
    (memory : ℕ → Value) :
    device.effect b (device.effect a memory) = device.effect a (device.effect b memory) := by
  rcases h with rfl | hfree
  · rfl
  · exact ((device.footprint a).commute (device.footprint b) hfree memory).symm

/-- What a call issues is ordered by its streams wherever it touches the same cells. The zeroing is on
the null stream, for which nothing waits; the host code waits for its own streams. -/
structure Plan.Settled (plan : Plan) (driver : Driver) (device : Device Value)
    (tensors : List RuntimeTensorView) : Prop where
  zeroing : ∀ zero ∈ plan.zeroWorks tensors, ∀ work ∈ plan.works driver tensors,
    device.Free (.work zero) (.work work)
  kernels : StreamOrder.Settled device.Free [] (plan.events driver)
  waited : (plan.events driver).foldl pending [] = []

/-- Every number of calls in graph mode leaves what as many calls leave without it, in whatever order
the driver runs what they issued. -/
structure Plan.Replays (plan : Plan) (driver : Driver) (device : Device Value)
    (tensors : List RuntimeTensorView) (s : State) : Prop where
  captured : plan.Captures driver tensors s
  contents : ∀ n s', plan.plain.executes driver tensors s n = .ok (none, s') →
    ∃ captured g, plan.executes driver tensors s n = .ok (captured, g) ∧
      ∀ memory order order', StreamOrder.Run s'.issued order → StreamOrder.Run g.issued order' →
        outcome device.effect g.issued order' memory =
          outcome device.effect s'.issued order memory

/-- The work that zeroes the outputs, which may stay pending. -/
def Plan.Zeroing (plan : Plan) (tensors : List RuntimeTensorView) : Set Operation :=
  { op | ∃ zero ∈ plan.zeroWorks tensors, op = .work zero }

/-- Events that a call issues. -/
structure Issues (plan : Plan) (driver : Driver) (device : Device Value)
    (tensors : List RuntimeTensorView) (events : List (Event Stream Operation)) : Prop where
  ops : events.filterMap Event.op = (plan.works driver tensors).map .work
  settled : ∀ waiting, (∀ x ∈ waiting, x.2 ∈ plan.Zeroing tensors) →
    StreamOrder.Settled device.Free waiting events ∧
      ∀ x ∈ events.foldl pending waiting, x.2 ∈ plan.Zeroing tensors

variable {device : Device Value}

section

variable (h : plan.Settled driver device tensors)

include h

/-- The zeroing is free of everything that a call issues. -/
theorem Plan.Settled.background {S : Type}
    {events : List (Event S Operation)} (hops : ∀ op ∈ events.filterMap Event.op,
      ∃ work ∈ plan.works driver tensors, op = .work work) :
    ∀ z ∈ plan.Zeroing tensors, ∀ e ∈ events, ∀ op, e.op = some op → device.Free z op := by
  rintro z ⟨zero, hzero, rfl⟩ e he op hop
  obtain ⟨work, hwork, rfl⟩ := hops op (mem_filterMap.2 ⟨e, he, hop⟩)
  exact h.zeroing zero hzero work hwork

/-- Work that is all on one stream keeps what is pending on others. -/
theorem Plan.Settled.single (stream : Stream)
    {works : List Work} (hworks : ∀ work ∈ works, work ∈ plan.works driver tensors)
    {waiting : List (Stream × Operation)} (hwaiting : ∀ x ∈ waiting, x.2 ∈ plan.Zeroing tensors) :
    StreamOrder.Settled device.Free waiting (onStream stream works) ∧
      ∀ x ∈ (onStream stream works).foldl pending waiting,
        x.2 ∈ plan.Zeroing tensors ∨ ∃ work ∈ works, x = (stream, .work work) := by
  have hsingle : StreamOrder.Settled device.Free [] (onStream () works) :=
    StreamOrder.settled_single (by simp [onStream])
  have hops : ∀ op ∈ (onStream () works).filterMap Event.op,
      ∃ work ∈ plan.works driver tensors, op = .work work := by
    rw [ops_onStream]
    rintro op hop
    obtain ⟨work, hwork, rfl⟩ := mem_map.1 hop
    exact ⟨work, hworks work hwork, rfl⟩
  obtain ⟨hsettled, hpending⟩ := hsingle.run (fun _ => stream) (h.background hops) fun x hx =>
    .inl (hwaiting x hx)
  have hmap : (onStream () works).map (Event.onStreams fun _ => stream) =
      onStream stream works := by
    simp [onStream, Event.onStreams, Function.comp_def]
  rw [hmap] at hsettled hpending
  refine ⟨hsettled, fun x hx => (hpending x hx).imp_right ?_⟩
  rintro ⟨y, hy, rfl⟩
  rcases StreamOrder.mem_pending hy with hy | hy
  · exact absurd hy not_mem_nil
  · obtain ⟨work, hwork, heq⟩ := mem_map.1 hy
    exact ⟨work, hwork, by rw [(Event.work.inj heq).2]⟩

/-- **An ordinary call.** -/
theorem Plan.Settled.issues_plain (streams : List Stream) :
    Issues plan driver device tensors (onStream .null (plan.zeroWorks tensors) ++
      (plan.events driver).map (Event.onStreams (streamAt streams))) where
  ops := by
    rw [filterMap_append, ops_onStream, ops_events, ← map_append]
    rfl
  settled waiting hwaiting := by
    obtain ⟨hzero, hpending⟩ := h.single .null
      (fun work (hwork : work ∈ plan.zeroWorks tensors) => List.mem_append_left _ hwork) hwaiting
    have hpending : ∀ x ∈ (onStream .null (plan.zeroWorks tensors)).foldl pending waiting,
        x.2 ∈ plan.Zeroing tensors := by
      intro x hx
      rcases hpending x hx with hz | ⟨work, hwork, rfl⟩
      · exact hz
      · exact ⟨work, hwork, rfl⟩
    have hops : ∀ op ∈ (plan.events driver).filterMap Event.op,
        ∃ work ∈ plan.works driver tensors, op = .work work := by
      intro op hop
      obtain ⟨e, he, hop⟩ := mem_filterMap.1 hop
      obtain ⟨call, hcall, hevent⟩ := mem_filterMap.1 he
      have hwork : (call.event driver (fetched plan.program)).bind Event.op = _ := event_op call _
      rw [hevent, Option.bind_some, hop] at hwork
      obtain ⟨work, hcallWork, rfl⟩ := Option.map_eq_some_iff.1 hwork.symm
      exact ⟨work, List.mem_append_right _ (mem_filterMap.2 ⟨call, hcall, hcallWork⟩), rfl⟩
    obtain ⟨hprogram, hlast⟩ := h.kernels.run (streamAt streams) (h.background hops) fun x hx =>
      .inl (hpending x hx)
    refine ⟨settled_append.2 ⟨hzero, hprogram⟩, fun x hx => ?_⟩
    rw [foldl_append] at hx
    refine (hlast x hx).resolve_right ?_
    rintro ⟨y, hy, -⟩
    rw [h.waited] at hy
    exact not_mem_nil hy

/-- **A replay.** -/
theorem Plan.Settled.issues_replay :
    Issues plan driver device tensors
      (onStream .graph (plan.works driver tensors) ++ [.synchronize .graph]) where
  ops := by
    rw [filterMap_append, ops_onStream]
    exact List.append_nil _
  settled waiting hwaiting := by
    obtain ⟨hworks, hpending⟩ := h.single .graph (fun _ hwork => hwork) hwaiting
    refine ⟨settled_append.2 ⟨hworks, nofun, trivial⟩, fun x hx => ?_⟩
    rw [foldl_append] at hx
    obtain ⟨hx, hne⟩ := List.mem_filter.1 hx
    refine (hpending x hx).resolve_right ?_
    rintro ⟨work, -, rfl⟩
    exact of_decide_eq_true hne rfl

end

variable {events : List (Event Stream Operation)}

theorem Issues.synchronize (h : Issues plan driver device tensors events) (stream : Stream) :
    Issues plan driver device tensors (events ++ [.synchronize stream]) where
  ops := by
    rw [filterMap_append, h.ops]
    exact List.append_nil _
  settled waiting hwaiting := by
    obtain ⟨hsettled, hpending⟩ := h.settled waiting hwaiting
    refine ⟨settled_append.2 ⟨hsettled, nofun, trivial⟩, fun x hx => ?_⟩
    rw [foldl_append] at hx
    exact hpending x (List.mem_filter.1 hx).1

/-- What so many calls have issued. -/
structure History (plan : Plan) (driver : Driver) (device : Device Value)
    (tensors : List RuntimeTensorView) (n : ℕ) (s : State) : Prop where
  idle : s.Idle
  ops : s.issued.filterMap Event.op =
    (List.replicate n ((plan.works driver tensors).map Operation.work)).flatten
  settled : StreamOrder.Settled device.Free [] s.issued
  pending : ∀ x ∈ s.issued.foldl pending [], x.2 ∈ plan.Zeroing tensors

theorem History.zero (hidle : s.Idle) (hnew : s.issued = []) :
    History plan driver device tensors 0 s :=
  ⟨hidle, by rw [hnew]; rfl, by rw [hnew]; trivial, by rw [hnew]; exact nofun⟩

variable {n : ℕ}

theorem History.succ (h : History plan driver device tensors n s)
    (hevents : Issues plan driver device tensors events) (hidle : s'.Idle)
    (hissued : s'.issued = s.issued ++ events) :
    History plan driver device tensors (n + 1) s' := by
  obtain ⟨hsettled, hpending⟩ := hevents.settled _ h.pending
  refine ⟨hidle, ?_, ?_, ?_⟩
  · rw [hissued, filterMap_append, h.ops, hevents.ops, List.replicate_succ', List.flatten_concat]
  · rw [hissued]
    exact settled_append.2 ⟨h.settled, hsettled⟩
  · rw [hissued, foldl_append]
    exact hpending

/-- The driver may run the calls in any order: they leave the same. -/
theorem History.outcome_eq (h : History plan driver device tensors n s) {order : List ℕ}
    (hrun : StreamOrder.Run s.issued order) (memory : ℕ → Value) :
    outcome device.effect s.issued order memory =
      (List.replicate n ((plan.works driver tensors).map Operation.work)).flatten.foldl
        (fun memory op => device.effect op memory) memory := by
  rw [hrun.outcome_eq h.settled (fun _ _ hfree => hfree.commute) memory, h.ops]

section

variable (hgraph : plan.graphMode = true) (hresident : plan.Resident driver tensors)
  (hidle : s.Idle) (hnew : s.issued = [])

include hresident hidle hnew

theorem executes_plain (hsettled : plan.Settled driver device tensors) {captured : Option Captured}
    (h : plan.plain.executes driver tensors s n = .ok (captured, s')) :
    captured = none ∧ History plan driver device tensors n s' := by
  induction n generalizing captured s' with
  | zero =>
    cases h
    exact ⟨rfl, .zero hidle hnew⟩
  | succ n ih =>
    obtain ⟨⟨captured₁, s₁⟩, hfirst, hlast⟩ := bind_eq_ok h
    obtain ⟨-, hhistory⟩ := ih hfirst
    obtain ⟨hcaptured, -, -, hran⟩ := execute_plain hresident hhistory.idle hlast
    obtain ⟨streams, hissued⟩ := hran.issued
    exact ⟨hcaptured,
      hhistory.succ (hsettled.issues_plain streams) ⟨hran.override, hran.capture⟩ hissued⟩

include hgraph

/-- Every call behind the first one is a replay. -/
theorem executes_graph (hsettled : plan.Settled driver device tensors)
    (hruns : ∃ s', plan.plain.execute driver tensors (none, s) = .ok (none, s'))
    (hlast : plan.LaunchesLast) (hload : plan.Loadable driver) (n : ℕ) :
    ∃ g, plan.executes driver tensors s (n + 1) =
        .ok (some ⟨plan.works driver tensors, tensors.map (·.data)⟩, g) ∧
      History plan driver device tensors (n + 1) g := by
  obtain ⟨s', hplain⟩ := hruns
  obtain ⟨-, hvalid, hinvoke, hran⟩ := execute_plain hresident hidle hplain
  obtain ⟨streams, hissued⟩ := hran.issued
  induction n with
  | zero =>
    obtain ⟨g, hexecute, hgidle, hgissued⟩ :=
      (execute_first hgraph hresident hidle hvalid hinvoke).1 hload
    rw [lastWorks_of_last driver tensors hlast] at hexecute
    refine ⟨g, hexecute, (History.zero hidle hnew).succ
      ((hsettled.issues_plain streams).synchronize .graph) hgidle ?_⟩
    rw [hgissued, hissued, append_assoc]
  | succ n ih =>
    obtain ⟨g₁, hbefore, hhistory⟩ := ih
    obtain ⟨g₂, hnext, hidle₂, hissued₂⟩ := execute_replay driver hgraph hhistory.idle hvalid
      (plan.works driver tensors)
    refine ⟨g₂, ?_, hhistory.succ hsettled.issues_replay hidle₂ hissued₂⟩
    rw [Plan.executes, hbefore]
    exact hnext

/-- **Graph replay.** -/
theorem replays (device : Device Value)
    (hruns : ∃ s', plan.plain.execute driver tensors (none, s) = .ok (none, s')) :
    (plan.LaunchesLast ∧ plan.Loadable driver ∧ plan.Settled driver device tensors →
      plan.Replays driver device tensors s) ∧
    (plan.Replays driver device tensors s → plan.LaunchesLast ∧ plan.Loadable driver) := by
  have hcaptures := captures_iff hgraph hresident hidle hruns
  refine ⟨fun ⟨hlast, hload, hsettled⟩ => ⟨hcaptures.2 ⟨hlast, hload⟩, fun n s' hs' => ?_⟩,
    fun h => hcaptures.1 h.captured⟩
  obtain ⟨-, hhistory⟩ := executes_plain hresident hidle hnew hsettled hs'
  cases n with
  | zero =>
    cases hs'
    exact ⟨none, s, rfl, fun memory order order' hrun hrun' => by
      rw [hhistory.outcome_eq hrun, hhistory.outcome_eq hrun']⟩
  | succ n =>
    obtain ⟨g, hexecutes, hghistory⟩ :=
      executes_graph hgraph hresident hidle hnew hsettled hruns hlast hload n
    exact ⟨_, g, hexecutes, fun memory order order' hrun hrun' => by
      rw [hhistory.outcome_eq hrun, hghistory.outcome_eq hrun']⟩

end

/-- The cells that an operation writes, of buffers of one cell. -/
def written : Operation → List ℕ
  | .work (.kernel _ _ _ _ params) => params
  | .work (.copy _ dst _ _) | .work (.memset32 dst _ _) | .work (.memset16 dst _ _) => [dst]
  | .memcpy dst _ _ | .memset dst _ => [dst]

/-- A kernel adds the width of its grid to its buffers, whatever its function is. -/
def stored : Operation → (ℕ → ℕ) → ℕ → ℕ
  | .work (.kernel _ grid _ _ _), memory, cell => memory cell + grid.1
  | .work (.copy _ _ src _), memory, _ | .memcpy _ src _, memory, _ => memory src
  | .work (.memset32 _ value _), _, _ | .work (.memset16 _ value _), _, _ => value
  | .memset _ _, _, _ => 0

def source : Operation → Set ℕ
  | .work (.copy _ _ src _) | .memcpy _ src _ => {src}
  | _ => ∅

def adder : Device ℕ where
  effect op memory cell := if cell ∈ written op then stored op memory cell else memory cell
  reads op := source op
  writes op := { cell | cell ∈ written op }
  footprint op := {
    unchanged := fun memory cell hcell => if_neg hcell
    determined := fun memory memory' hreads cell hcell => by
      have hstored : stored op memory cell = stored op memory' cell := by
        cases op with
        | work work =>
          cases work with
          | kernel => exact congrArg (· + _) hcell
          | copy => exact hreads _ rfl
          | memset32 | memset16 => rfl
        | memcpy => exact hreads _ rfl
        | memset => rfl
      simp only [hstored, hcell] }

def someDriver : Driver where
  isDevice ptr := ptr ≠ 0
  acquire pool _ := pool
  loadsInCapture := false
  validateParams := false

/-- A plan for two outputs of two by two elements, which need no zeroing. -/
def planOf (program : List Call) : Plan where
  frozenMeta := [⟨.float32, [2, 2], [2, 1], true, true, {}⟩, ⟨.float32, [2, 2], [2, 1], true, true, {}⟩]
  needsOutputZeroing := false
  program := program
  graphMode := true

def outputsAt (ptr ptr' : ℕ) : List RuntimeTensorView :=
  [⟨ptr, .float32, [2, 2], [2, 1], true, {}⟩, ⟨ptr', .float32, [2, 2], [2, 1], true, {}⟩]

def startState : State := { pool := { maxPooledBytes := 0 } }

/-- One function, launched on two streams. -/
def oneFunction : List Call :=
  [.moduleLoadJIT 0 3, .moduleGetFunction 0 "matmul", .streamCreate, .streamCreate,
    .launchKernel 0 (1, 1, 1) (32, 1, 1) 0 0 [4096], .launchKernel 0 (2, 1, 1) (32, 1, 1) 0 1 [8192],
    .launchKernel 0 (3, 1, 1) (32, 1, 1) 0 0 [4096], .streamSynchronize 0, .streamSynchronize 1,
    .streamDestroy 1, .streamDestroy 0, .moduleUnload 0]

theorem settled_oneFunction :
    (planOf oneFunction).Settled someDriver adder (outputsAt 4096 8192) where
  zeroing := nofun
  kernels := by
    have hfree : ∀ f f' grid grid' block block' smem smem', ∀ c c' : ℕ, c ≠ c' → adder.Free
        (.work (.kernel f grid block smem [c])) (.work (.kernel f' grid' block' smem' [c'])) := by
      intro f f' grid grid' block block' smem smem' c c' hne
      refine .inr (not_or.2 ⟨not_not.2 ?_, not_not.2 ?_⟩)
      · exact Set.disjoint_left.2 (by simp [adder, written, source, hne])
      · exact Set.disjoint_left.2 (by simp [adder, source])
    let launch (stream width cell : ℕ) : Event ℕ Operation :=
      .work stream (.work (.kernel ⟨⟨0, some 3⟩, "matmul"⟩ (width, 1, 1) (32, 1, 1) 0 [cell]))
    have hevents : (planOf oneFunction).events someDriver =
        [launch 0 1 4096, launch 1 2 8192, launch 0 3 4096, .synchronize 0, .synchronize 1] := by
      decide
    rw [hevents]
    simp [launch, StreamOrder.Settled, pending, Event.op, Event.isOn, hfree]
  waited := by decide

theorem replays_oneFunction :
    (planOf oneFunction).Replays someDriver adder (outputsAt 4096 8192) startState := by
  refine (replays rfl ⟨?_, ?_⟩ ⟨rfl, rfl⟩ rfl adder ⟨_, rfl⟩).1 ⟨?_, .inr ?_, settled_oneFunction⟩
  · simp [outputsAt]
  · simp [planOf, oneFunction, Call.Resident]
  · intro function grid block smem stream params hcall
    have hzero : function = 0 := by
      simp only [planOf, oneFunction, List.mem_cons, reduceCtorEq, Call.launchKernel.injEq,
        not_mem_nil, or_false, false_or] at hcall
      omega
    rw [hzero]
    rfl
  · simp [planOf, oneFunction]

/-- A product and the reduction behind it, each from its own module. -/
def twoFunctions : List Call :=
  [.moduleLoadJIT 0 3, .moduleGetFunction 0 "matmul", .moduleLoadJIT 1 3,
    .moduleGetFunction 1 "reduce", .streamCreate, .launchKernel 0 (1, 1, 1) (32, 1, 1) 0 0 [4096],
    .launchKernel 1 (1, 1, 1) (32, 1, 1) 0 0 [4096], .streamSynchronize 0, .streamDestroy 0,
    .moduleUnload 0, .moduleUnload 1]

/-- The graph of a kernel with two functions launches the second one twice. -/
theorem two_functions_not_replayed :
    ¬ ∀ (plan : Plan) (driver : Driver) (device : Device ℕ) (tensors : List RuntimeTensorView)
      (s : State), plan.graphMode = true → plan.Resident driver tensors → s.Idle → s.issued = [] →
      (∃ s', plan.plain.execute driver tensors (none, s) = .ok (none, s')) →
      plan.Replays driver device tensors s := by
  intro hall
  have hreplays := hall (planOf twoFunctions) someDriver adder (outputsAt 4096 8192) startState rfl
    ⟨by simp [outputsAt], by simp [planOf, twoFunctions, Call.Resident]⟩ ⟨rfl, rfl⟩ rfl ⟨_, rfl⟩
  obtain ⟨graph, g, hexecute, hsame⟩ := hreplays.captured _ rfl
  have hcaptured : (some graph : Option Captured) = some
      ⟨[.kernel ⟨⟨1, some 3⟩, "reduce"⟩ (1, 1, 1) (32, 1, 1) 0 [4096],
        .kernel ⟨⟨1, some 3⟩, "reduce"⟩ (1, 1, 1) (32, 1, 1) 0 [4096]], [4096, 8192]⟩ :=
    congrArg Prod.fst (ok.inj hexecute.symm)
  cases hcaptured
  exact absurd hsame (by decide)

end Matcore.Gpu.GraphMode
