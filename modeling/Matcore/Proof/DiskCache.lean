import Matcore.Engine.DiskCache

/-!
# Executions that come back from the disk

The loader asks for a function of the kernel's name, which only linear kernels have, and the
metadata file keeps little of what the compiler said of the tensors. So a restored execution runs
like the one that was compiled for a linear kernel whose output is where the defaults have it.
-/

namespace Matcore.Engine.DiskCache

open CacheKey ExecutionCache

variable {H : Type} [DecidableEq H] {hash : List Char → H} {r : Request} {e : Surroundings}
  {disk disk' : H → Option SharedObject}
  {hasMatmul : CacheKey.KernelGraphIR → CacheKey.RequestedTargetProfile → Option Bool}
  {lowered : LoweredModule} {tensors : List Tensor} {memory : Memory}

/-- `persistExecutionToDiskCache` writes a file that was not there. -/
structure Stored (hash : List Char → H) (r : Request) (e : Surroundings)
    (disk disk' : H → Option SharedObject) : Prop where
  persisted : persistExecutionToDiskCache hash r e ⟨r⟩ disk = some disk'
  new : disk' ≠ disk

theorem Stored.file (h : Stored hash r e disk disk') :
    isDiskCacheSupported r.profile = true ∧ disk' (hash r.key) = some (.linked ⟨r⟩) := by
  obtain ⟨hpersisted, hnew⟩ := h
  unfold persistExecutionToDiskCache at hpersisted
  split at hpersisted
  · exact absurd (Option.some.inj hpersisted).symm hnew
  · rename_i hskip
    rw [not_or] at hskip
    split at hpersisted
    · rw [← Option.some.inj hpersisted]
      exact ⟨by simpa using hskip.1, Function.update_self _ _ _⟩
    · cases hpersisted

theorem Stored.load (h : Stored hash r e disk disk') {e' : Surroundings}
    (hopens : e'.opens = true) :
    (tryLoadDiskCachedExecution hash r e' disk').1 =
      if r.kernel.entryPoint = r.kernel.name then some ⟨r⟩ else none := by
  obtain ⟨hsupported, hfile⟩ := h.file
  unfold tryLoadDiskCachedExecution
  rw [if_pos hsupported, hfile]
  dsimp only
  rw [if_pos hopens]
  split <;> rfl

def IsLinear (r : Request) : Prop := ∃ ops, r.kernel.program = .linear ops

theorem fused_ne (name : String) : "fused_" ++ name ≠ name := by
  intro h
  have hlength := congrArg String.length h
  rw [String.length_append] at hlength
  have hmark : "fused_".length = 6 := by decide
  omega

theorem entryPoint_eq_name_iff : r.kernel.entryPoint = r.kernel.name ↔ IsLinear r := by
  unfold KernelIR.entryPoint IsLinear
  cases hprogram : r.kernel.program with
  | region region =>
    simp only [reduceCtorEq, exists_false, iff_false]
    unfold KernelIR.name
    split
    · decide
    · exact fused_ne _
  | graph graph =>
    simp only [reduceCtorEq, exists_false, iff_false]
    exact fused_ne _
  | linear ops => simp

/-- What is left of an execution. -/
def restored (r : Request) (lowered : LoweredModule) : LoweredModule where
  entryPoint := r.kernel.name
  tensorCount := lowered.tensorCount
  needsOutputZeroing := lowered.needsOutputZeroing

theorem restore_metadata (cacheVersion target routeDescription : String) :
    restore r (metadata cacheVersion target routeDescription lowered) = restored r lowered := by
  unfold restore getInteger getBoolean metadata restored
  simp [List.lookup]

def operations (r : Request) : Engine.KernelIR := { params := r.kernel.params, ops := r.kernel.ops }

/-- A linear kernel without a product and with an operation on the elements of one tensor or two. -/
def IsElementwise (r : Request) : Prop := isElementwiseKernel (operations r) = true

def IsUnary (r : Request) : Prop :=
  ∃ kind, firstKind (operations r) = some kind ∧ isUnaryOp kind = true

theorem linear_cases (hr : IsLinear r) (h : buildAndLower hasMatmul r = some lowered) :
    (IsElementwise r ∧ IsUnary r ∧ 2 ≤ r.tensors.length ∧
      lowered = { entryPoint := r.kernel.name, tensorCount := 2, needsOutputZeroing := false,
                  outputTensorIndices := [1] }) ∨
    (IsElementwise r ∧ ¬ IsUnary r ∧
      lowered = { entryPoint := r.kernel.name, tensorCount := 3, needsOutputZeroing := false,
                  outputTensorIndices := [2] }) ∨
    (¬ IsElementwise r ∧ 3 ≤ r.tensors.length ∧
      lowered = { entryPoint := r.kernel.name, outputTensorIndices := [2] }) := by
  obtain ⟨ops, hprogram⟩ := hr
  unfold buildAndLower at h
  rw [hprogram] at h
  dsimp only [linearModule] at h
  split at h
  · rename_i helementwise
    cases hkind : firstKind (operations r) with
    | none => rw [operations] at hkind; rw [hkind] at h; cases h
    | some kind =>
      have hkind' := hkind
      rw [operations] at hkind'
      rw [hkind'] at h
      dsimp only at h
      by_cases hunary : isUnaryOp kind = true
      · rw [if_pos hunary] at h
        split at h
        · cases h
        · rename_i hlength
          exact .inl ⟨helementwise, ⟨kind, hkind, hunary⟩, by omega, (Option.some.inj h).symm⟩
      · rw [if_neg hunary] at h
        split at h
        · cases h
        · refine .inr (.inl ⟨helementwise, ?_, (Option.some.inj h).symm⟩)
          rintro ⟨kind', hkind'', hunary'⟩
          obtain rfl := Option.some.inj (hkind.symm.trans hkind'')
          exact hunary hunary'
  · rename_i helementwise
    split at h
    · cases h
    · rename_i hlength
      simp only [Bool.or_eq_true, decide_eq_true_eq, not_or] at hlength
      obtain rfl := Option.some.inj h
      exact .inr (.inr ⟨helementwise, by omega, rfl⟩)

/-- Two executions of the same code do the same to these tensors. -/
structure SameContents (a b : LoweredModule) (tensors : List Tensor) : Prop where
  run : ∀ code memory, compileAndRun .sharedLibrary a code tensors memory =
    compileAndRun .engine b code tensors memory
  plan : ∀ code memory, executePlan .sharedLibrary a code tensors memory =
    executePlan .engine b code tensors memory

/-- They also zero the same ones and treat the same ones as outputs. -/
structure RunsAlike (a b : LoweredModule) (tensors : List Tensor) : Prop
    extends SameContents a b tensors where
  zeroedByRun : zeroedByRun a tensors = zeroedByRun b tensors
  zeroedByPlan : zeroedByPlan a tensors = zeroedByPlan b tensors
  outputs : planOutputs a tensors.length = planOutputs b tensors.length

variable {name : String}

theorem invocation_of_usual {count : ℕ} {zeroing : Bool} {outputs : List ℕ}
    (hlowered : lowered = { entryPoint := name, tensorCount := count, needsOutputZeroing := zeroing,
                            outputTensorIndices := outputs }) (hfew : count ≤ 16) :
    invocation .sharedLibrary (restored r lowered) tensors =
      invocation .engine lowered tensors := by
  have hsmall : ¬ 16 < count := by omega
  subst hlowered
  unfold invocation restored
  simp [hsmall]

theorem sameContents_of {a b : LoweredModule}
    (hinvocation : invocation .sharedLibrary a tensors = invocation .engine b tensors)
    (hrun : zeroedByRun a tensors = zeroedByRun b tensors)
    (hplan : zeroedByPlan a tensors = zeroedByPlan b tensors) : SameContents a b tensors where
  run := fun code memory => by
    unfold compileAndRun invokeCompiledKernel
    rw [hrun, hinvocation]
  plan := fun code memory => by
    unfold executePlan invokeCompiledKernel
    rw [hplan, hinvocation]

theorem planOutputs_restored (hout : lowered.outputTensorIndices = [2]) (n : ℕ) :
    planOutputs (restored r lowered) n = planOutputs lowered n := by
  unfold planOutputs
  refine List.filter_congr fun i _ => ?_
  rw [hout]
  show decide (i = 2) = [2].contains i
  simp

theorem outputPlaces_restored (hout : lowered.outputTensorIndices = [2]) :
    outputPlaces (restored r lowered) 3 = outputPlaces lowered 3 := by
  unfold outputPlaces
  rw [hout]
  rfl

/-- The output is where a restored execution expects it. -/
def UsualOrder (r : Request) : Prop :=
  IsLinear r ∧ if isElementwiseKernel (operations r) then ¬ IsUnary r else r.tensors.length = 3

theorem zeroed_of_not_needed (h : lowered.needsOutputZeroing = false) :
    zeroedByRun (restored r lowered) tensors = zeroedByRun lowered tensors ∧
      zeroedByPlan (restored r lowered) tensors = zeroedByPlan lowered tensors := by
  unfold zeroedByRun zeroedByPlan restored
  rw [h]
  exact ⟨rfl, rfl⟩

theorem zeroed_of_three (hout : lowered.outputTensorIndices = [2]) (h : tensors.length = 3) :
    zeroedByRun (restored r lowered) tensors = zeroedByRun lowered tensors ∧
      zeroedByPlan (restored r lowered) tensors = zeroedByPlan lowered tensors := by
  have hneeds : (restored r lowered).needsOutputZeroing = lowered.needsOutputZeroing := rfl
  unfold zeroedByRun zeroedByPlan
  rw [h, hneeds, outputPlaces_restored hout, planOutputs_restored hout]
  exact ⟨rfl, rfl⟩

/-- The contents also agree for an operation on the elements of one tensor. -/
theorem contents_restored (hr : IsLinear r) (hcompiled : buildAndLower hasMatmul r = some lowered)
    (h : IsElementwise r ∨ tensors.length = 3) :
    SameContents (restored r lowered) lowered tensors := by
  obtain ⟨-, -, -, hlowered⟩ | ⟨-, -, hlowered⟩ | ⟨hproduct, -, hlowered⟩ :=
    linear_cases hr hcompiled
  · have hneeds : lowered.needsOutputZeroing = false := by rw [hlowered]
    obtain ⟨hrun, hplan⟩ := zeroed_of_not_needed hneeds
    exact sameContents_of (invocation_of_usual hlowered (by decide)) hrun hplan
  · have hneeds : lowered.needsOutputZeroing = false := by rw [hlowered]
    obtain ⟨hrun, hplan⟩ := zeroed_of_not_needed hneeds
    exact sameContents_of (invocation_of_usual hlowered (by decide)) hrun hplan
  · have hout : lowered.outputTensorIndices = [2] := by rw [hlowered]
    obtain ⟨hrun, hplan⟩ := zeroed_of_three hout (h.resolve_left hproduct)
    exact sameContents_of (invocation_of_usual hlowered (by decide)) hrun hplan

/-- These tensors, all with an address. -/
def placed (views : List CacheKey.RuntimeTensorView) : List Tensor := views.map fun v => ⟨v, 1⟩

theorem placed_views (views : List CacheKey.RuntimeTensorView) :
    (placed views).map (·.view) = views := by
  simp [placed, Function.comp_def]

variable {views : List CacheKey.RuntimeTensorView}

theorem withData_placed {i : ℕ} (hi : i < views.length) : withData (placed views) [i] = [i] := by
  simp [withData, placed, hi]

/-- The output of a product is the third tensor, and a restored execution zeroes the last one. -/
theorem product_zeroed (h3 : 3 ≤ views.length)
    (hlowered : lowered = { entryPoint := name, outputTensorIndices := [2] })
    (h : zeroedByRun (restored r lowered) (placed views) = zeroedByRun lowered (placed views)) :
    views.length = 3 := by
  have hlength : (placed views).length = views.length := by simp [placed]
  have hrestored : zeroedByRun (restored r lowered) (placed views) = [views.length - 1] := by
    have hplaces : outputPlaces (restored r lowered) views.length = [views.length - 1] := by
      unfold outputPlaces restored
      rw [if_neg (by omega), if_neg (by simp)]
    subst hlowered
    unfold zeroedByRun
    rw [hlength, hplaces, withData_placed (by omega)]
    rfl
  have hcompiled : zeroedByRun lowered (placed views) = [2] := by
    have hplaces : outputPlaces lowered views.length = [2] := by
      subst hlowered
      unfold outputPlaces
      rw [if_neg (by omega), if_pos (by simp)]
      simp
      omega
    subst hlowered
    unfold zeroedByRun
    rw [hlength, hplaces, withData_placed (by omega)]
    rfl
  rw [hrestored, hcompiled] at h
  have := List.head_eq_of_cons_eq h
  omega

/-- The output of an operation on one tensor is the second, and a plan of a restored execution does
not have it. -/
theorem unary_outputs {n : ℕ} (h2 : 2 ≤ n)
    (hlowered : lowered = { entryPoint := name, tensorCount := 2, needsOutputZeroing := false,
                            outputTensorIndices := [1] }) :
    planOutputs (restored r lowered) n ≠ planOutputs lowered n := by
  intro h
  have hmem : 1 ∈ planOutputs lowered n := by
    subst hlowered
    unfold planOutputs
    simp
    omega
  rw [← h] at hmem
  unfold planOutputs restored at hmem
  simp at hmem

/-- The executions run alike on all these tensors. -/
def AlikeOn (r : Request) (lowered : LoweredModule) (T : Set (List Tensor)) : Prop :=
  ∀ tensors ∈ T, RunsAlike (restored r lowered) lowered tensors

/-- The tensors of a request. -/
def ownTensors (r : Request) : Set (List Tensor) := { tensors | tensors.map (·.view) = r.tensors }

section alike
variable {T : Set (List Tensor)} (hr : IsLinear r)
  (hcompiled : buildAndLower hasMatmul r = some lowered)
include hr hcompiled

theorem elementwise_alike_iff (helementwise : IsElementwise r) (hT : placed r.tensors ∈ T) :
    AlikeOn r lowered T ↔ ¬ IsUnary r := by
  obtain ⟨-, hunary, h2, hlowered⟩ | ⟨-, hunary, hlowered⟩ | ⟨hproduct, -, -⟩ :=
    linear_cases hr hcompiled
  · refine iff_of_false (fun halike => ?_) (not_not.mpr hunary)
    have hlength : 2 ≤ (placed r.tensors).length := by simpa [placed] using h2
    exact unary_outputs hlength hlowered (halike _ hT).outputs
  · refine iff_of_true (fun tensors _ => ?_) hunary
    have hneeds : lowered.needsOutputZeroing = false := by rw [hlowered]
    obtain ⟨hrun, hplan⟩ := zeroed_of_not_needed hneeds
    exact ⟨contents_restored hr hcompiled (.inl helementwise), hrun, hplan,
      planOutputs_restored (by rw [hlowered]) _⟩
  · exact absurd helementwise hproduct

theorem product_alike (hproduct : ¬ IsElementwise r) (h : tensors.length = 3) :
    RunsAlike (restored r lowered) lowered tensors := by
  obtain ⟨helementwise, -⟩ | ⟨helementwise, -⟩ | ⟨-, -, hlowered⟩ := linear_cases hr hcompiled
  · exact absurd helementwise hproduct
  · exact absurd helementwise hproduct
  · have hout : lowered.outputTensorIndices = [2] := by rw [hlowered]
    obtain ⟨hrun, hplan⟩ := zeroed_of_three hout h
    exact ⟨contents_restored hr hcompiled (.inr h), hrun, hplan, planOutputs_restored hout _⟩

theorem length_of_product_alike (hproduct : ¬ IsElementwise r)
    {views : List CacheKey.RuntimeTensorView} (h3 : 3 ≤ views.length) (hT : placed views ∈ T)
    (h : AlikeOn r lowered T) : views.length = 3 := by
  obtain ⟨helementwise, -⟩ | ⟨helementwise, -⟩ | ⟨-, -, hlowered⟩ := linear_cases hr hcompiled
  · exact absurd helementwise hproduct
  · exact absurd helementwise hproduct
  · exact product_zeroed h3 hlowered (h _ hT).zeroedByRun

theorem own_alike_iff :
    AlikeOn r lowered (ownTensors r) ↔
      if isElementwiseKernel (operations r) then ¬ IsUnary r else r.tensors.length = 3 := by
  have hown : placed r.tensors ∈ ownTensors r := placed_views _
  split
  · rename_i helementwise
    exact elementwise_alike_iff hr hcompiled helementwise hown
  · rename_i hproduct
    have h3 : 3 ≤ r.tensors.length := by
      obtain ⟨helementwise, -⟩ | ⟨helementwise, -⟩ | ⟨-, h3, -⟩ := linear_cases hr hcompiled
      · exact absurd helementwise hproduct
      · exact absurd helementwise hproduct
      · exact h3
    refine ⟨length_of_product_alike hr hcompiled hproduct h3 hown, ?_⟩
    intro hlength tensors htensors
    refine product_alike hr hcompiled hproduct ?_
    rw [← hlength, ← (htensors : tensors.map (·.view) = r.tensors), List.length_map]

theorem all_alike_iff :
    AlikeOn r lowered Set.univ ↔ IsElementwise r ∧ ¬ IsUnary r := by
  by_cases helementwise : IsElementwise r
  · rw [elementwise_alike_iff hr hcompiled helementwise (Set.mem_univ _)]
    exact (and_iff_right helementwise).symm
  · refine iff_of_false (fun halike => ?_) (fun h => helementwise h.1)
    let view : CacheKey.RuntimeTensorView := { symbol := "", dtype := .float32, shape := [] }
    have hfour : 3 ≤ (List.replicate 4 view).length := by rw [List.length_replicate]; omega
    have hthree := length_of_product_alike hr hcompiled helementwise hfour (Set.mem_univ _) halike
    rw [List.length_replicate] at hthree
    omega

end alike

/-- A kernel that the disk cache stores comes back and runs as it did, on the tensors of its
request, if and only if it is linear and its output is at the usual place, and on any tensors if and
only if it is an operation on the elements of two of them. -/
theorem restored_runs_alike_iff (hash : List Char → H) (r : Request)
    (hasMatmul : CacheKey.KernelGraphIR → CacheKey.RequestedTargetProfile → Option Bool)
    (lowered : LoweredModule) (hcompiled : buildAndLower hasMatmul r = some lowered)
    (e e' : Surroundings) (disk disk' : H → Option SharedObject)
    (hstored : Stored hash r e disk disk') (hopens : e'.opens = true)
    (cacheVersion target routeDescription : String) :
    ((tryLoadDiskCachedExecution hash r e' disk').1 = some ⟨r⟩ ∧
        (∀ tensors, tensors.map (·.view) = r.tensors →
          RunsAlike (restore r (metadata cacheVersion target routeDescription lowered)) lowered
            tensors) ↔
      UsualOrder r) ∧
    ((tryLoadDiskCachedExecution hash r e' disk').1 = some ⟨r⟩ ∧
        (∀ tensors,
          RunsAlike (restore r (metadata cacheVersion target routeDescription lowered)) lowered
            tensors) ↔
      IsLinear r ∧ IsElementwise r ∧ ¬ IsUnary r) := by
  have hload : (tryLoadDiskCachedExecution hash r e' disk').1 = some ⟨r⟩ ↔ IsLinear r := by
    rw [hstored.load hopens, ← entryPoint_eq_name_iff]
    split
    · rename_i hname
      exact iff_of_true rfl hname
    · rename_i hname
      exact iff_of_false nofun hname
  rw [restore_metadata, hload]
  refine ⟨and_congr_right fun hr => own_alike_iff hr hcompiled, and_congr_right fun hr => ?_⟩
  rw [← all_alike_iff hr hcompiled]
  exact ⟨fun h tensors _ => h tensors, fun h tensors => h tensors (Set.mem_univ _)⟩

/-- Everything succeeds. -/
def ready : Surroundings := ⟨false, true, false, true, true, true, true⟩

/-- The first file of a cache. -/
def firstFile (hash : List Char → H) (r : Request) : H → Option SharedObject :=
  Function.update (fun _ => none) (hash r.key) (some (.linked ⟨r⟩))

theorem stored_first (h : isDiskCacheSupported r.profile = true) :
    Stored hash r ready (fun _ => none) (firstFile hash r) where
  persisted := by
    unfold persistExecutionToDiskCache firstFile ready
    simp [h]
  new := by
    intro heq
    have hfile := congrFun heq (hash r.key)
    rw [firstFile, Function.update_self] at hfile
    cases hfile

def matrixView (symbol : String) : CacheKey.RuntimeTensorView where
  symbol := symbol
  dtype := .float32
  shape := [1, 1]
  strides := [1, 1]

/-- `c = a @ b`, with a tensor behind the output. -/
def productRequest : Request where
  kernel := {
    kernelName := "product"
    params := ["a", "b", "c", "scratch"]
    ops := [.load "x" "a" ["i", "k"], .load "y" "b" ["k", "j"], .matmul "z" "x" "y",
      .store "c" "z" ["i", "j"]] }
  profile := { kind := .x86AVX2 }
  tensors := ["a", "b", "c", "scratch"].map matrixView
  x86Profile := none
  graphMode := false

def productGraph : CacheKey.KernelGraphIR where
  values := ["a", "b", "c"].map fun symbol =>
    { symbol := symbol, dtype := .float32, shape := [1, 1]
      valueKind := if symbol = "c" then .output else .input
      isParameter := true, isOutput := symbol = "c" }
  nodes := [{ id := 0, kind := .matmul, inputs := [0, 1], outputs := [2],
              attrs := .matmul ⟨0, false⟩ ⟨1, false⟩ .float32 false }]
  inputValues := [0, 1]
  outputValues := [2]
  topoOrder := [0]

/-- The same product as a graph. -/
def graphRequest : Request :=
  { productRequest with
    kernel := { version := .graphV2, kernelName := "product", params := ["a", "b", "c"],
                graph := some productGraph }
    tensors := ["a", "b", "c"].map matrixView }

/-- The compiled execution of the graph is discarded, and that of the linear kernel comes back and
zeroes the last tensor in place of the output. -/
theorem product_lost_or_wrong :
    (∃ lowered, buildAndLower (fun _ _ => some true) graphRequest = some lowered) ∧
    Stored id graphRequest ready (fun _ => none) (firstFile id graphRequest) ∧
    (tryLoadDiskCachedExecution id graphRequest ready (firstFile id graphRequest)).1 = none ∧
    ∃ lowered, buildAndLower (fun _ _ => some true) productRequest = some lowered ∧
      Stored id productRequest ready (fun _ => none) (firstFile id productRequest) ∧
      (placed productRequest.tensors).map (·.view) = productRequest.tensors ∧
      zeroedByRun lowered (placed productRequest.tensors) = [2] ∧
      zeroedByRun (restore productRequest (metadata "1" "x86-avx2" "" lowered))
        (placed productRequest.tensors) = [3] := by
  refine ⟨⟨_, rfl⟩, stored_first rfl, ?_, _, rfl, stored_first rfl, placed_views _, by decide, ?_⟩
  · rw [(stored_first rfl).load rfl]
    exact if_neg (by decide)
  · rw [restore_metadata]
    decide

/-- A sum of two tensors. -/
def sumRequest : Request :=
  { productRequest with
    kernel := { kernelName := "sum", params := ["a", "b", "c"],
                ops := [.elementwise "z" .add "a" "b", .store "c" "z" ["i", "j"]] }
    tensors := ["a", "b", "c"].map matrixView }

def sumLowered : LoweredModule where
  entryPoint := "sum"
  needsOutputZeroing := false
  outputTensorIndices := [2]

theorem sum_restored :
    (tryLoadDiskCachedExecution id sumRequest ready (firstFile id sumRequest)).1 =
        some ⟨sumRequest⟩ ∧
      ∀ tensors, RunsAlike (restore sumRequest (metadata "1" "x86-avx2" "" sumLowered)) sumLowered
        tensors := by
  have hunary : ¬ IsUnary sumRequest := by
    rintro ⟨kind, hkind, hunary⟩
    obtain rfl : ElementwiseKind.add = kind := Option.some.inj hkind
    cases hunary
  have halike := restored_runs_alike_iff id sumRequest (fun _ _ => none) sumLowered rfl ready ready
    (fun _ => none) _ (stored_first rfl) rfl "1" "x86-avx2" ""
  exact halike.2.mpr ⟨⟨_, rfl⟩, rfl, hunary⟩

end Matcore.Engine.DiskCache
