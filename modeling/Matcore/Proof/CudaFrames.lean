import Matcore.Gpu.Cuda

/-!
# The frames of the CUDA candidate

One lemma for each function of the adapter, as for the ROCm one. Here every frame is retired by
`finish`, whatever became of the calls before it.
-/

namespace Matcore.Gpu.Cuda

open ClosedHost (Code)
open Async
open List (mem_map)

variable {driver : ℕ → CudaReply} {base : Log CudaCall} {quiet : Prop}

/-- Before the context is created. -/
def Bare (p : Bool) (s : FrameState Slot) (_ : Frame) : Prop :=
  Using p s ∧ s.progress = .idle

/-- The frame has its private context. -/
def Live (p : Bool) (s : FrameState Slot) (frame : Frame) : Prop :=
  Using p s ∧ (frame.handle .context).isSome = true

/-- Inside `finish`: without quiescence nothing is released. -/
def Closing (quiescent okay : Bool) (p : Bool) (s : FrameState Slot) (_ : Frame) : Prop :=
  if quiescent then Releasing [.context] okay .proven p s else s.progress = .unproven

/-- After `finish`. -/
def Finished (okay : Bool) (p : Bool) (s : FrameState Slot) (_ : Frame) : Prop :=
  if okay then Releasing [] true .proven p s else s.Troubled

theorem freeCall_role (slot : Slot) : (freeCall slot).role = .release slot := by
  cases slot <;> rfl

theorem live_attempt {cs : List CudaCall} (hrole : ∀ c ∈ cs, c.role = .plain ∨ c.role = .queue)
    (hcontext : ∀ c ∈ cs, ∀ reply (frame : Frame),
      (c.update reply frame).handle .context = frame.handle .context) :
    Triple (Open adapter base quiet Live) (attempt adapter driver cs)
      fun _ => Open adapter base quiet Live := by
  refine attempt_spec fun c hc p s frame reply hs => ?_
  obtain ⟨husing, hheld⟩ := hs
  have hheld' : ((adapter.update c reply frame).handle .context).isSome = true :=
    (congrArg Option.isSome (hcontext c hc reply frame)).trans hheld
  rcases hrole c hc with hplain | hqueue
  · have hrole : adapter.role c = .plain := hplain
    rw [hrole]
    exact ⟨s, rfl, husing, hheld'⟩
  · have hrole : adapter.role c = .queue := hqueue
    rw [hrole]
    exact ⟨{ s with progress := .pending }, rfl, husing.onProgress _, hheld'⟩

theorem allocate_spec (buffers : List (Fin 5 × ℕ)) :
    Triple (Open adapter base quiet Live) (allocate driver buffers)
      fun _ => Open adapter base quiet Live := by
  induction buffers with
  | nil => exact .keep
  | cons buffer rest ih =>
    unfold allocate
    have hcall : Triple (Open adapter base quiet Live)
        (call adapter driver (.memAlloc buffer.1 (if buffer.2 ≠ 0 then buffer.2 else 4)))
        fun _ => Open adapter base quiet Live := by
      refine call_spec (K := fun _ _ => Live) fun p s frame reply hs => ⟨s, rfl, hs.1, ?_⟩
      change (Function.update frame.handle (.memory buffer.1) reply.handle .context).isSome = true
      rw [Function.update_of_ne (fun h => by cases h)]
      exact hs.2
    refine hcall.bind fun r => ?_
    refine Triple.ite (fun _ => ih) fun _ => ?_
    exact Triple.ite (fun _ => .keep) fun _ => .keep

theorem synchronize_spec :
    Triple (Open adapter base quiet Live) (perform adapter driver .ctxSynchronize)
      fun succeeded => Open adapter base quiet fun p s frame =>
        Live p s frame ∧ s.progress = if succeeded then .proven else .unproven := by
  refine perform_spec (K := fun succeeded p s frame =>
    Live p s frame ∧ s.progress = if succeeded then .proven else .unproven) ?_
  intro p s frame reply hs
  obtain ⟨husing, hheld⟩ := hs
  exact ⟨_, rfl, ⟨husing.onProgress _, hheld⟩, rfl⟩

theorem run_spec (recipe : Recipe) :
    Triple (Open adapter base quiet Live) (run driver recipe)
      fun _ => Open adapter base quiet Live := by
  unfold run
  refine (live_attempt ?_ ?_).bind fun loaded => Triple.ite (fun _ => .keep) fun _ => ?_
  · intro c hc
    obtain ⟨image, -, rfl⟩ := mem_map.1 hc
    exact Or.inl rfl
  · intro c hc reply frame
    obtain ⟨image, -, rfl⟩ := mem_map.1 hc
    change Function.update frame.handle (.module image.1) reply.handle .context = _
    exact Function.update_of_ne (fun h => Slot.noConfusion h) _ _
  refine (live_attempt ?_ ?_).bind fun found => Triple.ite (fun _ => .keep) fun _ => ?_
  · intro c hc
    obtain ⟨module, -, rfl⟩ := mem_map.1 hc
    exact Or.inl rfl
  · intro c hc reply frame
    obtain ⟨module, -, rfl⟩ := mem_map.1 hc
    rfl
  refine (allocate_spec _).bind fun allocated => Triple.ite (fun _ => .keep) fun _ => ?_
  refine (live_attempt ?_ ?_).bind fun uploaded => Triple.ite (fun _ => .keep) fun _ => ?_
  · intro c hc
    obtain ⟨buffer, -, rfl⟩ := mem_map.1 hc
    exact Or.inr rfl
  · intro c hc reply frame
    obtain ⟨buffer, -, rfl⟩ := mem_map.1 hc
    rfl
  refine (live_attempt ?_ ?_).bind fun launched => Triple.ite (fun _ => .keep) fun _ => ?_
  · intro c hc
    obtain ⟨kernel, -, rfl⟩ := mem_map.1 hc
    exact Or.inr rfl
  · intro c hc reply frame
    obtain ⟨kernel, -, rfl⟩ := mem_map.1 hc
    rfl
  have hsync : Triple (Open adapter base quiet Live) (perform adapter driver .ctxSynchronize)
      fun _ => Open adapter base quiet Live :=
    synchronize_spec.imp (fun _ h => h) fun _ w hw => hw.imp fun p s frame hs => hs.1
  refine hsync.bind fun completed => Triple.ite (fun _ => .keep) fun _ => ?_
  have hdownload : Triple (Open adapter base quiet Live)
      (perform adapter driver (.memcpyDtoH recipe.download.1 recipe.download.2))
      fun _ => Open adapter base quiet Live :=
    perform_spec (K := fun _ => Live) fun p s frame reply hs =>
      ⟨{ s with progress := .pending }, rfl, hs.1.onProgress _, hs.2⟩
  refine hdownload.bind fun copied => ?_
  exact Triple.ite (fun _ => .keep) fun _ => .keep

theorem freeResources_spec (quiescent : Bool) :
    Triple
      (Open adapter base quiet fun p s frame =>
        Live p s frame ∧ s.progress = if quiescent then .proven else .unproven)
      (freeResources driver quiescent)
      fun freed => Open adapter base quiet (Closing quiescent freed) := by
  cases quiescent with
  | true =>
    have hrelease : Triple
        (Open adapter base quiet fun p s _ =>
          Releasing (releaseOrder ++ [.context]) true .proven p s)
        (releaseAll adapter driver held freeCall releaseOrder true)
        fun freed => Open adapter base quiet fun p s _ => Releasing [.context] freed .proven p s :=
      releaseAll_spec freeCall_role (Or.inr rfl) (by decide) (by decide) true
    exact hrelease.pre fun w hw => hw.imp fun p s frame hs => hs.1.1.releasing hs.2 _
  | false =>
    refine Triple.bind (poison_spec (Q := Closing false false) fun p s frame hs => hs.2) fun _ => ?_
    exact .keep

theorem restore_spec {c : CudaCall} (hc : c.role = .cleanup) {quiescent okay : Bool} :
    Triple (Open adapter base quiet (Closing quiescent okay)) (perform adapter driver c)
      fun succeeded => Open adapter base quiet (Closing quiescent (okay && succeeded)) := by
  refine perform_spec (K := fun succeeded => Closing quiescent (okay && succeeded)) ?_
  intro p s frame reply hs
  have hrole : adapter.role c = .cleanup := hc
  rw [hrole]
  refine ⟨_, rfl, ?_⟩
  cases quiescent with
  | true =>
    obtain ⟨hp, hprogress, hleft, hokay, hwritten⟩ := hs
    refine ⟨hp, hprogress, hleft, ?_, hwritten⟩
    simp only [hokay, Bool.not_and]
  | false => exact hs

theorem destroyContext_spec (quiescent okay : Bool) :
    Triple (Open adapter base quiet (Closing quiescent okay))
      (destroyContext driver quiescent okay)
      fun okay => Open adapter base quiet (Finished okay) := by
  cases quiescent with
  | true =>
    have hrelease : Triple
        (Open adapter base quiet fun p s _ => Releasing ([.context] ++ []) okay .proven p s)
        (releaseAll adapter driver held freeCall [.context] okay)
        fun okay => Open adapter base quiet fun p s _ =>
          Releasing (S := Slot) [] okay .proven p s :=
      releaseAll_spec freeCall_role (Or.inr rfl) (by decide) (fun _ _ => List.not_mem_nil) okay
    refine hrelease.imp (fun w hw => hw) fun okay w hw => hw.imp fun p s frame hs => ?_
    cases okay with
    | true => exact hs
    | false => exact Or.inr hs.okay_eq
  | false => exact Triple.pure fun w hw => hw.imp fun p s frame hs => Or.inl hs

theorem finish_spec :
    Triple (Open adapter base quiet Live) (finish driver)
      fun okay => Open adapter base quiet (Finished okay) := by
  unfold finish
  refine Triple.get fun w₀ hw => ?_
  refine Triple.ite (fun hnone => ?_) fun _ => ?_
  · obtain ⟨f, s, hs⟩ := hw
    have hheld := hs.holds.2
    rw [hnone] at hheld
    cases hheld
  have hsync : Triple (fun w => w = w₀) (perform adapter driver .ctxSynchronize)
      fun succeeded => Open adapter base quiet fun p s frame =>
        Live p s frame ∧ s.progress = if succeeded then .proven else .unproven :=
    synchronize_spec.pre fun w h => h ▸ hw
  refine hsync.bind fun quiescent => ?_
  refine (freeResources_spec quiescent).bind fun freed => ?_
  refine (restore_spec rfl).bind fun popped => ?_
  refine (restore_spec rfl).bind fun restored => ?_
  refine (destroyContext_spec quiescent _).bind fun okay => ?_
  cases okay with
  | true =>
    have htouch : Triple (Open adapter base quiet (Finished true))
        (touch fun frame : Frame => frame.set .context none)
        fun _ => Open adapter base quiet (Finished true) := touch_spec fun p s frame hs => hs
    exact htouch.bind fun _ => .keep
  | false =>
    have hpoison : Triple (Open adapter base quiet (Finished false)) poison
        fun _ => Open adapter base quiet (Finished false) := poison_spec fun p s frame hs => hs
    exact hpoison.bind fun _ => .keep

/-- What an invocation leaves: all frames retired, and no output written unless it succeeded. -/
def Left (base : Log CudaCall) (code : Code) (w : World CudaCall Frame) : Prop :=
  Between adapter base (code ≠ .ok) w

theorem abandon_spec (code : Code) :
    Triple (Open adapter base True Bare)
      (do
        destroy
        return code)
      (Left base) := by
  have hdestroy : Triple (Open adapter base True Bare) destroy fun _ => Between adapter base True :=
    destroy_spec.pre fun w hw => hw.imp fun p s _ hs => ⟨hs.1.unpoisoned, Or.inl hs.2, hs.1.broken⟩
  exact hdestroy.bind fun _ => between_pure

theorem publish_spec (status : Code) :
    Triple (Open adapter base True (Finished true))
      (do
        if status = .ok then record .write
        destroy
        return status)
      (Left base) := by
  refine Triple.ite (fun hok => ?_) fun _ => ?_
  · refine write_released.bind fun _ => destroy_done.bind fun _ => Triple.pure fun w hw => ?_
    exact Between.weaken hw fun h => h hok
  · have hquiet : ∀ w, Open adapter base True (Finished true) w → Open adapter base True Done w :=
      fun w hw => hw.imp fun p s _ hs => ⟨hs.unpoisoned, hs.progress_eq, hs.okay_eq⟩
    exact (destroy_done.pre hquiet).bind fun _ => between_pure

theorem stage_spec (recipe : Recipe) (device : ℤ) :
    Triple (Open adapter base True fun p s frame => p = false ∧ s = {} ∧ frame = {})
      (stage driver recipe device) (Left base) := by
  have hsave : Triple
      (Open adapter base True fun p s frame => p = false ∧ s = {} ∧ frame = {})
      (perform adapter driver (.ctxGetCurrent false))
      fun _ => Open adapter base True Bare := by
    refine perform_spec (K := fun _ => Bare) fun p s frame reply hs => ?_
    obtain ⟨hp, rfl, rfl⟩ := hs
    exact ⟨{}, rfl, ⟨hp, rfl, rfl, rfl⟩, rfl⟩
  have hcreate : Triple (Open adapter base True Bare)
      (perform adapter driver (.ctxCreate device))
      fun created => Open adapter base True (if created then Live else Bare) := by
    refine perform_spec (K := fun created => if created then Live else Bare)
      fun p s frame reply hs => ⟨s, rfl, ?_⟩
    change (if reply.success = true then Live else Bare) p s (frame.set .context reply.handle)
    split
    · rename_i hsuccess
      refine ⟨hs.1, ?_⟩
      simp only [Frame.set, Function.update_self, CudaReply.handle, if_pos hsuccess,
        Option.isSome_some]
    · exact hs
  unfold stage
  refine hsave.bind fun saved => Triple.ite (fun _ => abandon_spec _) fun _ => ?_
  refine hcreate.bind fun created => Triple.ite (fun hcreated => ?_) fun hcreated => ?_
  · refine (abandon_spec _).pre fun w hw => ?_
    rwa [if_neg (by simpa using hcreated)] at hw
  rw [if_pos (by simpa using hcreated)]
  refine (run_spec recipe).bind fun status => ?_
  refine finish_spec.bind fun okay => ?_
  cases okay with
  | false =>
    have hquarantine : Triple (Open adapter base True (Finished false)) quarantine
        fun _ => Between adapter base True :=
      quarantine_spec.pre fun w hw => hw.imp fun p s _ hs => hs
    exact hquarantine.bind fun _ => between_pure
  | true => exact publish_spec status

theorem frameOf_spec (env : Environment) (recipe : Recipe) (device : ℤ) :
    Triple (Ready adapter base True) (frameOf driver env recipe device) (Left base) := by
  unfold frameOf
  cases env.staging with
  | noFrame => exact Triple.pure fun w hw => Between.weaken hw.1 fun _ => trivial
  | noBuffers =>
    refine openFrame_spec.bind fun _ => (abandon_spec _).pre fun w hw => ?_
    refine hw.imp fun p s frame hs => ?_
    obtain ⟨hp, rfl, rfl⟩ := hs
    exact ⟨⟨hp, rfl, rfl, rfl⟩, rfl⟩
  | allocated => exact openFrame_spec.bind fun _ => stage_spec recipe device

theorem discoverFrom_spec (indices : List ℕ) :
    Triple (Ready adapter base True) (discoverFrom driver indices)
      fun _ => Ready adapter base True := by
  induction indices with
  | nil => exact .keep
  | cons index rest ih =>
    unfold discoverFrom
    refine call_between.bind fun device => Triple.ite (fun _ => .keep) fun _ => ?_
    refine call_between.bind fun major => Triple.ite (fun _ => .keep) fun _ => ?_
    refine call_between.bind fun minor => Triple.ite (fun _ => .keep) fun _ => ?_
    exact Triple.ite (fun _ => .keep) fun _ => ih

theorem discover_spec :
    Triple (Ready adapter base True) (discover driver)
      fun _ => Ready adapter base True := by
  unfold discover
  refine Triple.get fun w₀ hw => ?_
  have hstay : ∀ w, w = w₀ → Ready adapter base True w := by
    rintro w rfl
    exact hw
  refine Triple.ite (fun _ => Triple.pure hstay) fun _ => ?_
  refine (perform_between.pre hstay).bind fun initialised => ?_
  refine Triple.ite (fun _ => .keep) fun _ => ?_
  refine call_between.bind fun count => ?_
  exact Triple.ite (fun _ => .keep) fun _ => discoverFrom_spec _

theorem ready_pure (code : Code) :
    Triple (Ready adapter base True) (pure code) (Left base) :=
  Triple.pure fun _ hw => Between.weaken hw.1 fun _ => trivial

theorem execute_spec (build : Build) (env : Environment) (a b c : CandidateView) (device : ℤ) :
    Triple (Ready adapter base True) (execute driver build env a b c device) (Left base) := by
  unfold execute
  cases admitGemm a b c with
  | error code => exact ready_pure code
  | ok sizes =>
    refine call_between.bind fun maxX => Triple.ite (fun _ => ready_pure _) fun _ => ?_
    refine call_between.bind fun maxY => Triple.ite (fun _ => ready_pure _) fun _ => ?_
    refine Triple.ite (fun _ => ready_pure _) fun _ => ?_
    refine Triple.ite (fun _ => ready_pure _) fun _ => ?_
    exact Triple.ite (fun _ => ready_pure _) fun _ => frameOf_spec env _ device

theorem executePair_spec (build : Build) (env : Environment) (a b d e : CandidateView)
    (device : ℤ) :
    Triple (Ready adapter base True) (executePair driver build env a b d e device) (Left base) := by
  unfold executePair
  cases admitPair a b d e with
  | error code => exact ready_pure code
  | ok sizes =>
    refine Triple.ite (fun _ => ready_pure _) fun _ => ?_
    refine Triple.ite (fun _ => ready_pure _) fun _ => ?_
    exact Triple.ite (fun _ => ready_pure _) fun _ => frameOf_spec env _ device

variable {work : ℤ → M Code} {env : Environment}

theorem onDevice_spec (hwork : ∀ device,
      Triple (Ready adapter base True) (work device) (Left base)) :
    Triple (Between adapter base True) (onDevice driver env work) (Left base) := by
  unfold onDevice isolated
  refine guarded_spec (fun w hw => Between.weaken hw fun _ => trivial) ?_
  cases env.worker with
  | noMemory => exact ready_pure _
  | failed => exact ready_pure _
  | started =>
    refine Triple.ite (fun _ => ?_) fun _ => ready_pure _
    refine discover_spec.bind fun discovered => ?_
    cases discovered with
    | error code => exact ready_pure code
    | ok device => exact hwork device

variable {w : World CudaCall Frame}

theorem onDevice_poisoned (h : w.poisoned = true) :
    onDevice driver env work w = (.candidateFailure, w) := by
  unfold onDevice isolated
  change (if w.poisoned = true then (pure Code.candidateFailure : M Code) else _) w = _
  rw [if_pos h]
  rfl

theorem invoke_spec (build : Build) (i : Invocation) :
    Triple (Between adapter base True) (invoke build driver i) (Left base) := by
  cases i with
  | available env => exact onDevice_spec fun _ => ready_pure _
  | gemm env a b c => exact onDevice_spec (execute_spec build env a b c)
  | fusedPair env a b d e =>
    refine Triple.ite (fun _ => onDevice_spec (executePair_spec build env a b d e)) fun _ => ?_
    exact between_pure

theorem invoke_poisoned (build : Build) (i : Invocation) (h : w.poisoned = true) :
    invoke build driver i w = ((rejection build i).getD .candidateFailure, w) := by
  cases i with
  | available env => exact onDevice_poisoned h
  | gemm env a b c => exact onDevice_poisoned h
  | fusedPair env a b d e =>
    change (if build.fusedPair = true then onDevice driver env _ else _) w =
      ((if build.fusedPair = true then none else some Code.candidateUnavailable).getD _, w)
    split
    · exact onDevice_poisoned h
    · rfl

end Matcore.Gpu.Cuda
