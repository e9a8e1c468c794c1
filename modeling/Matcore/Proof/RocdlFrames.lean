import Matcore.Gpu.Rocdl

/-!
# The frames of the ROCm candidate

One lemma for each function of the adapter: what it makes of a frame in use, and of the log.
`invoke_spec` puts them together for one invocation.
-/

namespace Matcore.Gpu.Rocdl

open ClosedHost (Code)
open Async

variable {driver : ℕ → HipReply} {base : Log HipCall} {quiet : Prop}

/-- The flag of the frame covers the work that may be running. -/
def Flagged (p : Bool) (s : FrameState Slot) (frame : Frame) : Prop :=
  Using p s ∧ (frame.workMayBePending = false → s.Settled)

/-- Before the first asynchronous call. -/
def Early (p : Bool) (s : FrameState Slot) (frame : Frame) : Prop :=
  Using p s ∧ s.progress = .idle ∧ frame.workMayBePending = false

/-- From the first asynchronous call to the last synchronisation. -/
def Late (p : Bool) (s : FrameState Slot) (frame : Frame) : Prop :=
  Using p s ∧ frame.workMayBePending = true

variable {frame : Frame} {s : FrameState Slot} {p : Bool}

theorem Early.flagged (h : Early p s frame) : Flagged p s frame := ⟨h.1, fun _ => Or.inl h.2.1⟩

theorem Late.flagged (h : Late p s frame) : Flagged p s frame := by
  refine ⟨h.1, fun hflag => ?_⟩
  rw [h.2] at hflag
  cases hflag

@[simp] theorem update_flag (c : HipCall) (reply : HipReply) (frame : Frame) :
    (c.update reply frame).workMayBePending = frame.workMayBePending := by
  cases c <;> simp only [HipCall.update, Frame.set] <;> split <;> rfl

theorem freeCall_role (slot : Slot) : (freeCall slot).role = .release slot := by
  cases slot <;> rfl

variable {cs : List HipCall}

theorem early_attempt (h : ∀ c ∈ cs, c.role = .plain) :
    Triple (Open adapter base quiet Early) (attempt adapter driver cs)
      fun _ => Open adapter base quiet Early := by
  refine attempt_spec fun c hc p s frame reply hs => ⟨s, ?_, ?_⟩
  · have hrole : adapter.role c = .plain := h c hc
    rw [hrole]
    rfl
  · obtain ⟨husing, hidle, hflag⟩ := hs
    exact ⟨husing, hidle, (update_flag c reply frame).trans hflag⟩

theorem late_attempt (h : ∀ c ∈ cs, c.role = .queue) :
    Triple (Open adapter base quiet Late) (attempt adapter driver cs)
      fun _ => Open adapter base quiet Late := by
  refine attempt_spec fun c hc p s frame reply hs => ⟨{ s with progress := .pending }, ?_, ?_⟩
  · have hrole : adapter.role c = .queue := h c hc
    rw [hrole]
    rfl
  · obtain ⟨husing, hflag⟩ := hs
    exact ⟨husing.onProgress _, (update_flag c reply frame).trans hflag⟩

variable {P : Bool → FrameState Slot → Frame → Prop}

theorem synchronize_spec (hP : ∀ p s frame, P p s frame → Late p s frame) :
    Triple (Open adapter base quiet P) (perform adapter driver .streamSynchronize)
      fun succeeded => Open adapter base quiet fun p s frame =>
        Late p s frame ∧ s.progress = if succeeded then .proven else .unproven := by
  refine perform_spec (K := fun succeeded p s frame =>
    Late p s frame ∧ s.progress = if succeeded then .proven else .unproven) ?_
  intro p s frame reply hs
  obtain ⟨husing, hflag⟩ := hP p s frame hs
  exact ⟨_, rfl, ⟨husing.onProgress _, hflag⟩, rfl⟩

theorem settle_spec :
    Triple (Open adapter base quiet Flagged) (settle driver)
      fun okay => Open adapter base quiet fun p s _ =>
        Using p s ∧ if okay then s.Settled else s.Troubled := by
  refine Triple.get fun w hw => ?_
  split
  · rename_i hflag
    have hlate : Open adapter base quiet Late w := by
      obtain ⟨f, s, hs⟩ := hw
      exact ⟨f, s, { hs with holds := ⟨hs.holds.1, hflag⟩ }⟩
    refine (synchronize_spec fun _ _ _ h => h).imp (fun _ h => h ▸ hlate) fun succeeded w hw => ?_
    refine hw.imp fun p s frame hs => ⟨hs.1.1, ?_⟩
    have hprogress := hs.2
    split at hprogress
    · rename_i hok
      rw [if_pos hok]
      exact Or.inr hprogress
    · rename_i hok
      rw [if_neg hok]
      exact Or.inl hprogress
  · rename_i hflag
    refine Triple.pure ?_
    rintro w rfl
    obtain ⟨f, s, hs⟩ := hw
    exact ⟨f, s, { hs with holds := ⟨hs.holds.1, hs.holds.2 (Bool.eq_false_of_not_eq_true hflag)⟩ }⟩

variable {progress : Progress}

theorem release_spec (hprogress : progress = .idle ∨ progress = .proven) :
    Triple (Open adapter base quiet fun p s _ => Using p s ∧ s.progress = progress)
      (release driver)
      fun okay => Open adapter base quiet fun p s _ => Releasing (S := Slot) [] okay progress p s := by
  have hrelease : Triple
      (Open adapter base quiet fun p s _ => Releasing (releaseOrder ++ []) true progress p s)
      (release driver)
      fun okay => Open adapter base quiet fun p s _ => Releasing (S := Slot) [] okay progress p s :=
    releaseAll_spec freeCall_role hprogress (by decide) (fun _ _ => List.not_mem_nil) true
  exact hrelease.pre fun w hw => hw.imp fun p s _ hs => hs.1.releasing hs.2 _

theorem finish_spec (hprogress : progress = .idle ∨ progress = .proven) (code : Code) (okay : Bool) :
    Triple (Open adapter base quiet fun p s _ => Releasing (S := Slot) [] okay progress p s)
      (finish code okay)
      fun c w => c = code ∧ Between adapter base quiet w := by
  cases okay with
  | true =>
    refine Triple.bind (destroy_spec.pre ?_) fun _ => Triple.pure fun w hw => ⟨rfl, hw⟩
    intro w hw
    refine hw.imp fun p s _ hs => ⟨hs.unpoisoned, ?_, hs.okay_eq⟩
    unfold FrameState.Settled
    rw [hs.progress_eq]
    exact hprogress
  | false =>
    refine Triple.bind (quarantine_spec.pre ?_) fun _ => Triple.pure fun w hw => ⟨rfl, hw⟩
    exact fun w hw => hw.imp fun p s _ hs => Or.inr hs.okay_eq

/-- The failure path of a route: it releases the frame once the queue is known to be empty, and
quarantines it otherwise. -/
theorem failed_spec (code : Code) :
    Triple (Open adapter base quiet Flagged) (failed driver code)
      fun c w => c = code ∧ Between adapter base quiet w := by
  refine settle_spec.bind fun settled => ?_
  cases settled with
  | false =>
    refine Triple.bind (quarantine_spec.pre ?_) fun _ => Triple.pure fun w hw => ⟨rfl, hw⟩
    exact fun w hw => hw.imp fun p s _ hs => hs.2
  | true =>
    -- the two ways in which a queue is settled keep their progress through the release
    have hrest : ∀ progress, progress = .idle ∨ progress = .proven →
        Triple (Open adapter base quiet fun p s _ => Using p s ∧ s.progress = progress)
          (do
            touch fun frame : Frame => { frame with workMayBePending := false }
            finish code (← release driver))
          fun c w => c = code ∧ Between adapter base quiet w := by
      intro progress hprogress
      have htouch : Triple (Open adapter base quiet fun p s _ => Using p s ∧ s.progress = progress)
          (touch fun frame : Frame => { frame with workMayBePending := false })
          fun _ => Open adapter base quiet fun p s _ => Using p s ∧ s.progress = progress :=
        touch_spec fun _ _ _ h => h
      refine htouch.bind fun _ => ?_
      exact (release_spec hprogress).bind (finish_spec hprogress code)
    rintro w ⟨f, s, hs⟩
    obtain ⟨husing, hsettled⟩ := hs.holds
    rcases hsettled with hidle | hproven
    · exact hrest .idle (Or.inl rfl) w ⟨f, s, { hs with holds := ⟨husing, hidle⟩ }⟩
    · exact hrest .proven (Or.inr rfl) w ⟨f, s, { hs with holds := ⟨husing, hproven⟩ }⟩

/-- What an invocation leaves: all frames retired, and no output written unless it succeeded. -/
def Left (base : Log HipCall) (code : Code) (w : World HipCall Frame) : Prop :=
  Between adapter base (code ≠ .ok) w

theorem failing (hP : ∀ p s frame, P p s frame → Flagged p s frame) (code : Code) :
    Triple (Open adapter base True P) (failed driver code) (Left base) :=
  (failed_spec code).imp (fun _ hw => hw.imp hP) fun _ _ hw => Between.weaken hw.2 fun _ => trivial

/-- The last part of a successful frame: everything is released before the output is written. -/
theorem publish_spec :
    Triple (Open adapter base True fun p s _ => Releasing (S := Slot) [] true .proven p s)
      (do
        record .write
        destroy
        return Code.ok)
      (Left base) := by
  refine write_released.bind fun _ => destroy_done.bind fun _ => Triple.pure fun w hw => ?_
  exact Between.weaken hw fun h => h rfl

theorem stage_spec (recipe : Recipe) :
    Triple (Open adapter base True fun p s frame => p = false ∧ s = {} ∧ frame = {})
      (stage driver recipe) (Left base) := by
  have hstart : ∀ w, Open adapter base True (fun p s frame => p = false ∧ s = {} ∧ frame = {}) w →
      Open adapter base True Early w := by
    intro w hw
    refine hw.imp fun p s frame hs => ?_
    obtain ⟨hp, rfl, rfl⟩ := hs
    exact ⟨⟨hp, rfl, rfl, rfl⟩, rfl, rfl⟩
  have early {cs : List HipCall} (h : ∀ c ∈ cs, c.role = .plain) :
      Triple (Open adapter base True Early) (attempt adapter driver cs)
        fun _ => Open adapter base True Early := early_attempt h
  have late {cs : List HipCall} (h : ∀ c ∈ cs, c.role = .queue) :
      Triple (Open adapter base True Late) (attempt adapter driver cs)
        fun _ => Open adapter base True Late := late_attempt h
  have hpending : Triple (Open adapter base True Early)
      (touch fun frame : Frame => { frame with workMayBePending := true })
      fun _ => Open adapter base True Late := touch_spec fun p s frame hs => ⟨hs.1, rfl⟩
  have hidle : Triple
      (Open adapter base True fun p s frame => Late p s frame ∧ s.progress = .proven)
      (touch fun frame : Frame => { frame with workMayBePending := false })
      fun _ => Open adapter base True fun p s _ => Using p s ∧ s.progress = .proven :=
    touch_spec fun p s frame hs => ⟨hs.1.1, hs.2⟩
  unfold stage
  refine ((early (by simp [HipCall.role])).pre hstart).bind fun created => ?_
  refine Triple.ite (fun _ => failing (fun _ _ _ => Early.flagged) _) fun _ => ?_
  refine (early recipe.prepare_plain).bind fun prepared => ?_
  refine Triple.ite (fun _ => failing (fun _ _ _ => Early.flagged) _) fun _ => ?_
  refine (early recipe.allocate_plain).bind fun allocated => ?_
  refine Triple.ite (fun _ => failing (fun _ _ _ => Early.flagged) _) fun _ => ?_
  refine hpending.bind fun _ => ?_
  refine (late recipe.upload_queue).bind fun uploaded => ?_
  refine Triple.ite (fun _ => failing (fun _ _ _ => Late.flagged) _) fun _ => ?_
  refine (late recipe.launch_queue).bind fun launched => ?_
  refine Triple.ite (fun _ => failing (fun _ _ _ => Late.flagged) _) fun _ => ?_
  refine (synchronize_spec fun _ _ _ h => h).bind fun completed => ?_
  refine Triple.ite (fun _ => failing (fun _ _ _ hs => hs.1.flagged) _) fun hcompleted => ?_
  have hproven : ∀ w,
      Open adapter base True (fun p s frame =>
        Late p s frame ∧ s.progress = if completed then .proven else .unproven) w →
      Open adapter base True (fun p s frame => Late p s frame ∧ s.progress = .proven) w := by
    intro w hw
    refine hw.imp fun p s frame hs => ⟨hs.1, ?_⟩
    have hprogress := hs.2
    rwa [if_pos (by simpa using hcompleted)] at hprogress
  refine (hidle.pre hproven).bind fun _ => ?_
  refine (release_spec (Or.inr rfl)).bind fun released => ?_
  refine Triple.ite (fun hreleased => ?_) fun hreleased => ?_
  · have hbroken : Triple
        (Open adapter base True fun p s _ => Releasing (S := Slot) [] released .proven p s)
        quarantine fun _ => Between adapter base True := by
      refine quarantine_spec.pre fun w hw => hw.imp fun p s _ hs => Or.inr ?_
      rw [hs.okay_eq]
      exact hreleased
    exact hbroken.bind fun _ => between_pure
  · have htrue : released = true := by simpa using hreleased
    subst htrue
    exact publish_spec

theorem frameOf_spec (env : Environment) (recipe : Recipe) :
    Triple (Ready adapter base True) (frameOf driver env recipe) (Left base) := by
  unfold frameOf
  cases env.staging with
  | noFrame => exact Triple.pure fun w hw => Between.weaken hw.1 fun _ => trivial
  | noBuffers =>
    refine openFrame_spec.bind fun _ => ?_
    have hdestroy : Triple
        (Open adapter base True fun p s frame => p = false ∧ s = {} ∧ frame = {})
        destroy fun _ => Between adapter base True := by
      refine destroy_spec.pre fun w hw => hw.imp fun p s frame hs => ?_
      obtain ⟨hp, rfl, rfl⟩ := hs
      exact ⟨hp, Or.inl rfl, rfl⟩
    exact hdestroy.bind fun _ => between_pure
  | allocated => exact openFrame_spec.bind fun _ => stage_spec recipe

theorem discoverFrom_spec (devices : List ℕ) :
    Triple (Ready adapter base True) (discoverFrom driver devices)
      fun _ => Ready adapter base True := by
  induction devices with
  | nil => exact .keep
  | cons device rest ih =>
    unfold discoverFrom
    refine call_between.bind fun r => ?_
    refine Triple.ite (fun _ => .keep) fun _ => ?_
    refine Triple.ite (fun _ => ih) fun _ => ?_
    exact Triple.ite (fun _ => .keep) fun _ => .keep

theorem discover_spec :
    Triple (Ready adapter base True) (discover driver)
      fun _ => Ready adapter base True := by
  unfold discover
  refine Triple.get fun w₀ hw => ?_
  have hstay : ∀ w, w = w₀ → Ready adapter base True w := by
    rintro w rfl
    exact hw
  refine Triple.ite (fun _ => Triple.pure hstay) fun _ => ?_
  refine (call_between.pre hstay).bind fun r => ?_
  refine Triple.ite (fun _ => .keep) fun _ => ?_
  exact discoverFrom_spec _

theorem ready_pure (code : Code) :
    Triple (Ready adapter base True) (pure code) (Left base) :=
  Triple.pure fun _ hw => Between.weaken hw.1 fun _ => trivial

theorem execute_spec (env : Environment) (output : CandidateView) (ac bc cc : ℕ) :
    Triple (Ready adapter base True) (execute driver env output ac bc cc) (Left base) := by
  unfold execute
  refine discover_spec.bind fun discovered => ?_
  cases discovered with
  | error code => exact ready_pure code
  | ok selected =>
    refine perform_between.bind fun succeeded => ?_
    refine Triple.ite (fun _ => ready_pure _) fun _ => ?_
    exact Triple.ite (fun _ => ready_pure _) fun _ => frameOf_spec env _

theorem executePair_spec (build : Build) (env : Environment) (b : CandidateView)
    (ac bc dc ec pc : ℕ) :
    Triple (Ready adapter base True) (executePair driver build env b ac bc dc ec pc) (Left base) := by
  unfold executePair
  refine discover_spec.bind fun discovered => ?_
  cases discovered with
  | error code => exact ready_pure code
  | ok selected =>
    refine perform_between.bind fun succeeded => ?_
    refine Triple.ite (fun _ => ready_pure _) fun _ => ?_
    refine Triple.ite (fun _ => ready_pure _) fun _ => ?_
    refine Triple.ite (fun _ => ready_pure _) fun _ => ?_
    exact Triple.ite (fun _ => ready_pure _) fun _ => frameOf_spec env _

theorem available_spec :
    Triple (Ready adapter base True) (do
        match ← discover driver with
        | .error code => return code
        | .ok _ => return .ok)
      (Left base) := by
  refine discover_spec.bind fun discovered => ?_
  cases discovered with
  | error code => exact ready_pure code
  | ok _ => exact ready_pure _

variable {work : M Code} {env : Environment}

theorem isolated_spec (hwork : Triple (Ready adapter base True) work (Left base)) :
    Triple (Between adapter base True) (isolated env work) (Left base) := by
  unfold isolated
  refine guarded_spec (fun w hw => Between.weaken hw fun _ => trivial) ?_
  refine Triple.ite (fun _ => ready_pure _) fun _ => ?_
  cases env.worker with
  | noMemory => exact ready_pure _
  | failed => exact ready_pure _
  | started => exact Triple.ite (fun _ => hwork) fun _ => ready_pure _

variable {w : World HipCall Frame}

theorem isolated_poisoned (h : w.poisoned = true) :
    isolated env work w = (.candidateFailure, w) := by
  unfold isolated
  change (if w.poisoned = true then (pure Code.candidateFailure : M Code) else _) w = _
  rw [if_pos h]
  rfl

theorem invoke_spec (build : Build) (i : Invocation) :
    Triple (Between adapter base True) (invoke build driver i) (Left base) := by
  cases i with
  | available env => exact isolated_spec available_spec
  | gemm env lhs rhs output =>
    change Triple _ (rocdlGemmCandidate driver env lhs rhs output) _
    unfold rocdlGemmCandidate
    cases admitGemm lhs rhs output with
    | error code => exact between_pure
    | ok counts => exact isolated_spec (execute_spec env output _ _ _)
  | fusedPair env a b d e =>
    change Triple _ (rocdlFusedPairCandidate driver build env a b d e) _
    unfold rocdlFusedPairCandidate
    cases admitPair build a b d e with
    | error code => exact between_pure
    | ok counts => exact isolated_spec (executePair_spec build env b _ _ _ _ _)

theorem invoke_poisoned (build : Build) (i : Invocation) (h : w.poisoned = true) :
    invoke build driver i w = ((rejection build i).getD .candidateFailure, w) := by
  cases i with
  | available env => exact isolated_poisoned h
  | gemm env lhs rhs output =>
    change rocdlGemmCandidate driver env lhs rhs output w =
      ((rejected (admitGemm lhs rhs output)).getD .candidateFailure, w)
    unfold rocdlGemmCandidate
    cases admitGemm lhs rhs output with
    | error code => rfl
    | ok counts => exact isolated_poisoned h
  | fusedPair env a b d e =>
    change rocdlFusedPairCandidate driver build env a b d e w =
      ((rejected (admitPair build a b d e)).getD .candidateFailure, w)
    unfold rocdlFusedPairCandidate
    cases admitPair build a b d e with
    | error code => rfl
    | ok counts => exact isolated_poisoned h

end Matcore.Gpu.Rocdl
